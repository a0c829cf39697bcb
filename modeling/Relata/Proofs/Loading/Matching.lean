import Mathlib.Data.List.Forall2
import Relata.Loading.Eager
import Relata.Proofs.Value.Equality

/-!
Matching by key. The keys of a batch are made distinct, cut into pieces, and the rows that belong to
each piece are filed under their own keys. A key equal to one of the batch stands in exactly one of
the pieces; so what is filed under it are the rows that bear it, each once and in the order of the
table, whatever the pieces and whatever else the batch asks for.
-/

namespace Relata

namespace Value

/-- One more value among distinct ones, unless an equal one is there. -/
def addDistinct (seen : List Value) (v : Value) : List Value :=
  if seen.any (same v) then seen else seen ++ [v]

theorem mem_addDistinct {seen : List Value} {v w : Value} (h : v ∈ addDistinct seen w) :
    v ∈ seen ∨ v = w := by
  unfold addDistinct at h
  split at h
  · exact .inl h
  · simpa using h

theorem pairwise_addDistinct {seen : List Value} {v : Value}
    (h : seen.Pairwise fun a b => same b a = false) :
    (addDistinct seen v).Pairwise fun a b => same b a = false := by
  unfold addDistinct
  split
  · exact h
  · next fresh =>
    simp only [List.any_eq_true, not_exists, not_and, Bool.not_eq_true] at fresh
    exact List.pairwise_append.mpr ⟨h, List.pairwise_singleton _ _,
      fun a ha b hb => by rw [List.mem_singleton.mp hb]; exact fresh a ha⟩

/-- The value or one equal to it is there. -/
def Among (values : List Value) (v : Value) : Prop := ∃ d ∈ values, d = v ∨ same v d = true

theorem Among.addDistinct {seen : List Value} {v : Value} (h : Among seen v) (w : Value) :
    Among (addDistinct seen w) v := by
  obtain ⟨d, hd, equal⟩ := h
  unfold Value.addDistinct
  split
  · exact ⟨d, hd, equal⟩
  · exact ⟨d, List.mem_append_left _ hd, equal⟩

theorem among_addDistinct (seen : List Value) (v : Value) : Among (addDistinct seen v) v := by
  unfold addDistinct
  split
  · next there =>
    obtain ⟨d, hd, equal⟩ := List.any_eq_true.mp there
    exact ⟨d, hd, .inr equal⟩
  · exact ⟨v, by simp, .inl rfl⟩

theorem mem_of_mem_distinct {v : Value} {values : List Value} (h : v ∈ distinct values) :
    v ∈ values := by
  suffices ∀ seen, v ∈ values.foldl addDistinct seen → v ∈ seen ∨ v ∈ values by
    simpa using this [] h
  clear h
  induction values with
  | nil => exact fun _ h => .inl h
  | cons w values ih =>
    intro seen h
    rcases ih _ h with there | later
    · rcases mem_addDistinct there with before | rfl
      · exact .inl before
      · exact .inr List.mem_cons_self
    · exact .inr (List.mem_cons_of_mem _ later)

theorem pairwise_distinct (values : List Value) :
    (distinct values).Pairwise fun a b => same b a = false := by
  suffices ∀ seen : List Value, seen.Pairwise (fun a b => same b a = false) →
      (values.foldl addDistinct seen).Pairwise fun a b => same b a = false from this [] .nil
  induction values with
  | nil => exact fun _ h => h
  | cons v values ih => exact fun seen h => ih _ (pairwise_addDistinct h)

theorem among_distinct {v : Value} {values : List Value} (h : v ∈ values) :
    Among (distinct values) v := by
  suffices ∀ seen, v ∈ values ∨ Among seen v → Among (values.foldl addDistinct seen) v from
    this [] (.inl h)
  clear h
  induction values with
  | nil => rintro seen (no | there); exacts [absurd no List.not_mem_nil, there]
  | cons w values ih =>
    rintro seen (member | there)
    · rcases List.mem_cons.mp member with rfl | later
      · exact ih _ (.inr (among_addDistinct seen v))
      · exact ih _ (.inl later)
    · exact ih _ (.inr (there.addDistinct w))

end Value

namespace Matches

theorem lookup?_append {α : Type} (k : Value) (m n : List (Value × α)) :
    Value.lookup? k (m ++ n) = (Value.lookup? k m).or (Value.lookup? k n) := by
  induction m with
  | nil => rfl
  | cons e m ih =>
    by_cases h : k.same e.1 = true
    · simp [Value.lookup?, h]
    · simpa [Value.lookup?, h] using ih

theorem lookup?_eq_none_iff {α : Type} {k : Value} {m : List (Value × α)} :
    Value.lookup? k m = none ↔ ∀ e ∈ m, k.same e.1 = false := by
  induction m with
  | nil => simp [Value.lookup?]
  | cons e m ih => by_cases h : k.same e.1 = true <;> simp [Value.lookup?, h, ih]

section

variable {key k v : Value} (hk : k.isKey = true) (hkey : key.isKey = true)
include hk hkey

theorem same_iff_of_same {other : Value} (equal : k.same key = true) :
    k.same other = key.same other := by
  rw [Bool.eq_iff_iff]
  exact ⟨Value.same_trans hkey (Value.same_symm hk equal), Value.same_trans hk equal⟩

theorem not_same_of_not_same {other : Value} (apart : k.same key = false)
    (here : k.same other = true) : key.same other = false := by
  by_contra equal
  rw [Value.same_trans hk here (Value.same_symm hkey (Bool.eq_true_of_not_eq_false equal))] at apart
  cases apart

/-- What stands under a key when the entries of another one are lengthened. -/
theorem lookup?_lengthened (m : Matches) :
    Value.lookup? k (m.map fun e => if key.same e.1 then (e.1, e.2 ++ [v]) else e) =
      (Value.lookup? k m).map fun vs => if k.same key then vs ++ [v] else vs := by
  induction m with
  | nil => rfl
  | cons e m ih =>
    by_cases here : k.same e.1 = true
    · by_cases equal : k.same key = true
      · have own : key.same e.1 = true := (same_iff_of_same hk hkey equal).symm.trans here
        simp [Value.lookup?, own, here, equal]
      · have own := not_same_of_not_same hk hkey (Bool.eq_false_of_not_eq_true equal) here
        simp [Value.lookup?, own, here, equal]
    · have passed : k.same (if key.same e.1 = true then (e.1, e.2 ++ [v]) else e).1 = false := by
        split <;> simpa using here
      rw [List.map_cons, Value.lookup?, passed, Value.lookup?, Bool.eq_false_of_not_eq_true here]
      exact ih

/-- What is filed under a key after one more is filed. -/
theorem under_add (m : Matches) :
    (m.add key v).under k = if k.same key then m.under k ++ [v] else m.under k := by
  unfold add under
  split
  · next there =>
    rw [lookup?_lengthened hk hkey]
    cases found : Value.lookup? k m with
    | some vs => split <;> simp_all
    | none =>
      obtain ⟨e, he, own⟩ := List.any_eq_true.mp there
      by_cases equal : k.same key = true
      · rw [← same_iff_of_same hk hkey equal, lookup?_eq_none_iff.mp found e he] at own
        cases own
      · simp [equal]
  · next fresh =>
    rw [lookup?_append]
    by_cases equal : k.same key = true
    · have none : Value.lookup? k m = none := lookup?_eq_none_iff.mpr fun e he => by
        rw [same_iff_of_same hk hkey equal]
        simpa using fun own => fresh (List.any_eq_true.mpr ⟨e, he, own⟩)
      simp [none, Value.lookup?, equal]
    · simp [Value.lookup?, equal]

end

/-- What is filed under a key is all that came with an equal one, in order. -/
theorem under_foldl_add {k : Value} (hk : k.isKey = true) {found : List (Value × ObjectId)}
    (keys : ∀ e ∈ found, e.1.isKey = true) (m : Matches) :
    (found.foldl (fun m (e : Value × ObjectId) => m.add e.1 (.object e.2)) m).under k =
      m.under k ++ (found.filter (k.same ·.1)).map (.object ·.2) := by
  induction found generalizing m with
  | nil => simp
  | cons e found ih =>
    rw [List.foldl_cons, ih (fun e' he => keys e' (by simp [he])),
      under_add hk (keys e (by simp)), List.filter_cons]
    split <;> simp

end Matches

section Pieces

variable {keyOf : Row → Value} {table : List Row}

/-- The rows of a table that bear one of the keys. -/
def bearing (keyOf : Row → Value) (table : List Row) (keys : List Value) : List Row :=
  table.filter fun row => keys.any (·.same (keyOf row))

/-- The rows that belong to a key: all that bear it, and none to null. -/
def belonging (keyOf : Row → Value) (table : List Row) (k : Value) : List Row :=
  if k.isNull then [] else table.filter fun row => k.same (keyOf row)

theorem mem_of_mem_bearing {keys : List Value} {row : Row} (h : row ∈ bearing keyOf table keys) :
    row ∈ table := (List.mem_filter.mp h).1

theorem exists_of_mem_bearing {keys : List Value} {row : Row} (h : row ∈ bearing keyOf table keys) :
    ∃ k ∈ keys, k.same (keyOf row) = true := List.any_eq_true.mp (List.mem_filter.mp h).2

theorem mem_of_mem_pieces {keys piece : List Value} {more : Nat} {v : Value}
    (h : piece ∈ pieces more (distinctKeys keys)) (hv : v ∈ piece) : v ∈ keys := by
  have among : v ∈ distinctKeys keys := by
    rw [← flatten_pieces more (distinctKeys keys)]
    exact List.mem_flatten.mpr ⟨piece, h, hv⟩
  exact (List.mem_filter.mp (Value.mem_of_mem_distinct among)).1

variable {k : Value} (hk : k.isKey = true)
include hk

/-- A piece without a key equal to this one yields no row that bears it. -/
theorem filter_bearing_of_apart {keys : List Value} (hash : ∀ d ∈ keys, d.isKey = true)
    (apart : ∀ d ∈ keys, k.same d = false) :
    (bearing keyOf table keys).filter (fun row => k.same (keyOf row)) = [] := by
  simp only [bearing, List.filter_filter, List.filter_eq_nil_iff, Bool.and_eq_true,
    List.any_eq_true, not_and, not_exists]
  rintro row - own d hd bears
  have equal := Value.same_trans hk own (Value.same_symm (hash d hd) bears)
  rw [apart d hd] at equal
  cases equal

/-- A piece with such a key yields all of them. -/
theorem filter_bearing_of_among {keys : List Value} (hash : ∀ d ∈ keys, d.isKey = true) {d : Value}
    (hd : d ∈ keys) (equal : k.same d = true) :
    (bearing keyOf table keys).filter (fun row => k.same (keyOf row)) =
      table.filter fun row => k.same (keyOf row) := by
  rw [bearing, List.filter_filter]
  refine List.filter_congr fun row _ => ?_
  rw [Bool.and_eq_left_iff_imp]
  intro own
  exact List.any_eq_true.mpr
    ⟨d, hd, Value.same_trans (hash d hd) (Value.same_symm hk equal) own⟩

theorem filter_pieces_of_apart {pieces : List (List Value)}
    (hash : ∀ d ∈ pieces.flatten, d.isKey = true) (apart : ∀ d ∈ pieces.flatten, k.same d = false) :
    (pieces.flatMap (bearing keyOf table)).filter (fun row => k.same (keyOf row)) = [] := by
  induction pieces with
  | nil => rfl
  | cons keys rest ih =>
    simp only [List.flatten_cons, List.mem_append] at hash apart
    rw [List.flatMap_cons, List.filter_append,
      filter_bearing_of_apart hk (fun d hd => hash d (.inl hd)) (fun d hd => apart d (.inl hd)),
      ih (fun d hd => hash d (.inr hd)) (fun d hd => apart d (.inr hd)), List.append_nil]

/-- Where no two keys are equal, only one piece has a key equal to this one: by induction on the
pieces, of which either the first one has it or the rest have. -/
theorem filter_pieces_of_among {pieces : List (List Value)}
    (hash : ∀ d ∈ pieces.flatten, d.isKey = true)
    (distinct : pieces.flatten.Pairwise fun a b => b.same a = false) {d : Value}
    (hd : d ∈ pieces.flatten) (equal : k.same d = true) :
    (pieces.flatMap (bearing keyOf table)).filter (fun row => k.same (keyOf row)) =
      table.filter fun row => k.same (keyOf row) := by
  induction pieces with
  | nil => cases hd
  | cons keys rest ih =>
    rw [List.flatten_cons] at hash distinct hd
    simp only [List.mem_append] at hash hd
    obtain ⟨-, distinctRest, between⟩ := List.pairwise_append.mp distinct
    have apart {a b : Value} (ha : a ∈ keys) (hb : b ∈ rest.flatten) (own : k.same a = true) :
        k.same b = false := by
      by_contra other
      have both := Value.same_trans (hash b (.inr hb))
        (Value.same_symm hk (Bool.eq_true_of_not_eq_false other)) own
      rw [between a ha b hb] at both
      cases both
    rw [List.flatMap_cons, List.filter_append]
    rcases hd with here | later
    · rw [filter_bearing_of_among hk (fun d hd => hash d (.inl hd)) here equal,
        filter_pieces_of_apart hk (fun d hd => hash d (.inr hd)) fun b hb => apart here hb equal,
        List.append_nil]
    · rw [filter_bearing_of_apart hk (fun d hd => hash d (.inl hd)) fun a ha => ?_,
        ih (fun d hd => hash d (.inr hd)) distinctRest later, List.nil_append]
      by_contra own
      rw [apart ha later (Bool.eq_true_of_not_eq_false own)] at equal
      cases equal

/-- The rows that the pieces of a batch yield for one of its keys are the rows that belong to it, in
the order of the table: whatever the size of the pieces and whatever the other keys. -/
theorem filter_pieces_distinctKeys {keys : List Value} (hash : ∀ v ∈ keys, v.isKey = true)
    (there : k ∈ keys) (more : Nat) :
    ((pieces more (distinctKeys keys)).flatMap (bearing keyOf table)).filter
        (fun row => k.same (keyOf row)) = belonging keyOf table k := by
  have whole : (pieces more (distinctKeys keys)).flatten = distinctKeys keys :=
    flatten_pieces more _
  have kept {d : Value} (hd : d ∈ distinctKeys keys) : d ∈ keys ∧ d.isNull = false := by
    simpa using Value.mem_of_mem_distinct hd
  have hashed : ∀ d ∈ (pieces more (distinctKeys keys)).flatten, d.isKey = true := by
    rw [whole]
    exact fun d hd => hash d (kept hd).1
  have apartCase (apart : ∀ d ∈ distinctKeys keys, k.same d = false) :
      ((pieces more (distinctKeys keys)).flatMap (bearing keyOf table)).filter
        (fun row => k.same (keyOf row)) = [] :=
    filter_pieces_of_apart hk hashed (by rwa [whole])
  unfold belonging
  split
  · next null =>
    refine apartCase fun d hd => Bool.eq_false_of_not_eq_true fun equal => ?_
    obtain rfl : k = .null := by cases k <;> first | rfl | cases null
    obtain rfl := Value.eq_of_same_of_isAtom rfl equal
    cases (kept hd).2
  · next present =>
    by_cases among : ∃ d ∈ distinctKeys keys, k.same d = true
    · obtain ⟨d, hd, equal⟩ := among
      refine filter_pieces_of_among hk hashed ?_ (by rwa [whole]) equal
      rw [whole]
      exact Value.pairwise_distinct _
    · simp only [not_exists, not_and, Bool.not_eq_true] at among
      rw [apartCase among, eq_comm, List.filter_eq_nil_iff]
      intro row _ own
      -- A key that a row bears is equal to itself, so it has not been left out of the batch.
      have self := Value.same_trans hk own (Value.same_symm hk own)
      have counted : k ∈ keys.filter (!·.isNull) :=
        List.mem_filter.mpr ⟨there, by simpa using present⟩
      obtain ⟨d, hd, equal⟩ : ∃ d ∈ distinctKeys keys, k.same d = true := by
        obtain ⟨d, hd, rfl | equal⟩ := Value.among_distinct counted
        · exact ⟨d, hd, self⟩
        · exact ⟨d, hd, equal⟩
      rw [among d hd] at equal
      cases equal

end Pieces

end Relata
