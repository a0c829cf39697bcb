import Relata.Proofs.Schema.Inherited

/-!
The settings that a class inherits. A class that leaves a setting out takes what the first of its
bases has that has something, and nearly every class has something, if only what it took from the
root; attribute lookup would go along the ancestry and stop at the first class that gives the
setting itself.
-/

namespace Relata

/-- The settings that a class passes on to those below it. -/
inductive Setting where
  | table
  | softDeletes
  | connection
  | defaultWith
  | hidden

namespace Setting

/-- What the settings of a class give, as they are written. -/
def given? : Setting → Settings → Option Value
  | table, kw => if kw.table.truthy then some kw.table else none
  | softDeletes, kw => if kw.softDeletes.isNull then none else some (.bool kw.softDeletes.truthy)
  | connection, kw => if kw.connection.truthy then some kw.connection else none
  | defaultWith, kw => if kw.defaultWith.isNull then none else kw.defaultWith.items?.map .list
  | hidden, kw => if kw.hidden.isNull then none else kw.hidden.items?.map .list

/-- What a class has, given by itself or inherited. -/
def of? : Setting → Model → Option Value
  | table, m => Catalog.unlessNull m.namedTable
  | softDeletes, m => some (.bool m.softDeletes)
  | connection, m => some m.connection
  | defaultWith, m => some (.list m.defaultWith)
  | hidden, m => some (.list m.hidden)

/-- What the root of all classes has: it names no table. -/
def root? : Setting → Option Value
  | table => none
  | softDeletes => some (.bool false)
  | connection => some (.text "default")
  | defaultWith => some (.list [])
  | hidden => some (.list [])

end Setting

namespace Catalog

/-- What an ancestor has. -/
def valueOf (c : Catalog) (s : Setting) : Ancestor → Option Value
  | .root => s.root?
  | .deletion => none
  | .model id => (c.model? id).bind s.of?

/-- What the definition of a class gives. -/
def given? (ds : List Definition) (s : Setting) : Ancestor → Option Value
  | .model id => ds[id]?.bind fun d => s.given? d.settings
  | _ => none

/-- What attribute lookup would find: what the first class of the ancestry gives that gives the
setting, or what the root has. -/
def sought? (c : Catalog) (ds : List Definition) (s : Setting) (a : Ancestor) : Option Value :=
  ((c.orderOf a).findSome? (given? ds s)).or s.root?

/-- The bases of an ancestor. -/
def basesOf (c : Catalog) : Ancestor → List Ancestor
  | .model id => ((c.model? id).map (·.bases)).getD []
  | _ => []

/-- The base from which a class has a setting that it leaves out: the first that has something. -/
def donor? (c : Catalog) (s : Setting) (a : Ancestor) : Option Ancestor :=
  (c.basesOf a).find? fun b => (c.valueOf s b).isSome

variable {c c' : Catalog} {ds : List Definition} {d : Definition} {m : Model} {s : Setting}

theorem map_fromBases {α β : Type} (f : α → β) (bases : List Ancestor) (root : Option α)
    (get : Model → Option α) :
    (c.fromBases bases root get).map f =
      c.fromBases bases (root.map f) fun b => (get b).map f := by
  rw [fromBases, List.map_findSome?, fromBases]
  congr 1
  funext a
  cases a with
  | model id => cases found : c.model? id <;> simp [found]
  | _ => rfl

theorem findSome?_valueOf (bases : List Ancestor) (s : Setting) :
    bases.findSome? (c.valueOf s) = c.fromBases bases s.root? s.of? := by
  rw [fromBases]
  congr 1

theorem fromBases_mem {α : Type} {bases : List Ancestor} {root : Option α}
    {get : Model → Option α} {a : α} (found : c.fromBases bases root get = some a) :
    root = some a ∨ ∃ i b, c.model? i = some b ∧ get b = some a := by
  obtain ⟨base, -, has⟩ := List.exists_of_findSome?_eq_some found
  cases base with
  | root => exact .inl has
  | deletion => cases has
  | model i =>
    obtain ⟨b, there, has⟩ := Option.bind_eq_some_iff.mp has
    exact .inr ⟨i, b, there, has⟩

theorem firstTruthy_pair (v w : Value) : firstTruthy [v, w] =
    if v.truthy then v else if w.truthy then w else .null := by
  cases hv : v.truthy <;> cases hw : w.truthy <;> simp [firstTruthy, hv, hw]

theorem not_isNull_of_truthy {v : Value} (h : v.truthy = true) : v.isNull = false := by
  cases v <;> first | rfl | cases h

/-- What names a table or a connection is not empty. -/
structure Named (m : Model) : Prop where
  table : ∀ v, unlessNull m.namedTable = some v → v.truthy = true
  connection : m.connection.truthy = true

theorem of?_eq_of_listed {v : Value} {otherwise items : List Value}
    (read : listed v otherwise = .ok items) :
    some (Value.list items) =
      (if v.isNull then none else v.items?.map .list).or (some (.list otherwise)) := by
  unfold listed at read
  split at read
  · next null => simp [null, Except.ok.inj read]
  · next given =>
    split at read
    · next found => simp [given, found, Except.ok.inj read]
    · cases read

/-- What is inherited where something is left out, as one value. -/
theorem map_getD_fromBases {α β : Type} (f : α → β) (bases : List Ancestor) (root : α)
    (get : Model → α) :
    some (f ((c.fromBases bases (some root) fun b => some (get b)).getD root)) =
      (c.fromBases bases (some (f root)) fun b => some (f (get b))).or (some (f root)) := by
  have mapped := map_fromBases (c := c) f bases (some root) fun b => some (get b)
  simp only [Option.map_some] at mapped
  rw [← mapped]
  cases c.fromBases bases (some root) fun b => some (get b) <;> rfl

namespace Endows

variable (h : c.Endows d m) (named : ∀ i b, c.model? i = some b → Named b)
include h named

theorem table_eq : unlessNull m.namedTable =
    (if d.settings.table.truthy then some d.settings.table else none).or
      (c.fromBases m.bases none fun b => unlessNull b.namedTable) := by
  rw [h.table, firstTruthy_pair]
  split
  · next given => simp [unlessNull, not_isNull_of_truthy given]
  · cases found : c.fromBases m.bases none fun b => unlessNull b.namedTable with
    | none => simp [unlessNull, Value.isNull, Value.truthy]
    | some v =>
      have truthy : v.truthy = true := by
        rcases fromBases_mem found with absurd | ⟨i, b, there, has⟩
        · cases absurd
        · exact (named i b there).table v has
      simp [truthy, unlessNull, not_isNull_of_truthy truthy]

theorem connection_eq : m.connection.truthy = true ∧ m.connection =
    if d.settings.connection.truthy then d.settings.connection
    else (c.fromBases m.bases (some (.text "default")) fun b => some b.connection).getD
      (.text "default") := by
  have below : ((c.fromBases m.bases (some (.text "default")) fun b => some b.connection).getD
      (.text "default")).truthy = true := by
    cases found : c.fromBases m.bases (some (.text "default")) fun b => some b.connection with
    | none => rfl
    | some v =>
      rcases fromBases_mem found with same | ⟨i, b, there, same⟩
      · cases same
        rfl
      · cases same
        exact (named i b there).connection
  rw [h.connection, firstTruthy_pair]
  split
  · next given => exact ⟨given, rfl⟩
  · simp [below]

theorem keeps_named : Named m where
  table := by
    intro v has
    rw [h.table_eq named, Option.or_eq_some_iff] at has
    rcases has with given | ⟨-, found⟩
    · split at given
      · next truthy => exact Option.some.inj given ▸ truthy
      · cases given
    · rcases fromBases_mem found with absurd | ⟨i, b, there, has⟩
      · cases absurd
      · exact (named i b there).table v has
  connection := (h.connection_eq named).1

/-- A class has what it gives, or what the first of its bases has that has something; a class
without such a base has what the root has. -/
theorem of?_eq (s : Setting) :
    s.of? m = (s.given? d.settings).or ((m.bases.findSome? (c.valueOf s)).or s.root?) := by
  rw [findSome?_valueOf]
  cases s with
  | table =>
    rw [Setting.root?, Option.or_none]
    exact h.table_eq named
  | softDeletes =>
    have below := map_getD_fromBases (c := c) Value.bool m.bases false (·.softDeletes)
    rw [Setting.of?, Setting.given?, h.softDeletes]
    split
    · exact below
    · rfl
  | connection =>
    have below := map_getD_fromBases (c := c) id m.bases (.text "default") (·.connection)
    rw [Setting.of?, Setting.given?, (h.connection_eq named).2]
    split
    · rfl
    · exact below
  | defaultWith =>
    exact (map_getD_fromBases Value.list m.bases [] (·.defaultWith)) ▸ of?_eq_of_listed h.defaultWith
  | hidden =>
    exact (map_getD_fromBases Value.list m.bases [] (·.hidden)) ▸ of?_eq_of_listed h.hidden

end Endows

/-- What each class has of its ancestors: the order of its ancestry is a merge of those of its bases,
all of them there before it, and its settings are its own or those of the first base that has
something. -/
structure Settled (c : Catalog) (ds : List Definition) : Prop where
  inherits : c.Inherits ds
  named : ∀ i m, c.model? i = some m → Named m
  early : ∀ i m, c.model? i = some m → ∀ j, .model j ∈ m.bases → j < i
  merged : ∀ i m, c.model? i = some m → ∃ rest, m.ancestry = .model i :: rest ∧
    Linearization.Merges (m.bases.map c.orderOf ++ [m.bases]) rest
  settings : ∀ i m, c.model? i = some m → ∀ s, s.of? m =
    (given? ds s (.model i)).or ((m.bases.findSome? (c.valueOf s)).or s.root?)

theorem valueOf_push (s : Setting) (a : Ancestor) : (⟨c.models.push m⟩ : Catalog).valueOf s a =
    if a = .model c.models.size then s.of? m else c.valueOf s a := by
  cases a with
  | model i =>
    by_cases last : i = c.models.size <;> simp [valueOf, model?, Array.getElem?_push, last]
  | _ => rfl

theorem given?_append (d : Definition) (s : Setting) (i : ModelId) :
    given? (ds ++ [d]) s (.model i) =
      if i = ds.length then s.given? d.settings else given? ds s (.model i) := by
  rw [given?, given?, getElem?_concat]
  split <;> rfl

namespace Settled

theorem push (h : c.Settled ds) (completes : c.Completes d m) :
    (⟨c.models.push m⟩ : Catalog).Settled (ds ++ [d]) := by
  have size := h.inherits.sized
  have early : ∀ i own, (⟨c.models.push m⟩ : Catalog).model? i = some own →
      ∀ j, .model j ∈ own.bases → j < c.models.size ∧ j < i := by
    intro i own found j given
    rcases model?_push.mp found with old | ⟨rfl, rfl⟩
    · have lt := h.early i own old j given
      obtain ⟨inside, -⟩ := Array.getElem?_eq_some_iff.mp old
      exact ⟨Nat.lt_trans lt inside, lt⟩
    · rcases completes.early _ given with absurd | absurd | ⟨k, lt, same⟩
      · cases absurd
      · cases absurd
      · cases same
        exact ⟨lt, lt⟩
  have known : ∀ i own, (⟨c.models.push m⟩ : Catalog).model? i = some own →
      ∀ b ∈ own.bases, b ≠ .model c.models.size := by
    rintro i own found b given rfl
    exact Nat.lt_irrefl _ (early i own found _ given).1
  refine ⟨h.inherits.push completes, fun i own found => ?_, fun i own found j given =>
    (early i own found j given).2, fun i own found => ?_, fun i own found s => ?_⟩
  · rcases model?_push.mp found with old | ⟨rfl, rfl⟩
    · exact h.named i own old
    · exact completes.endowed.keeps_named h.named
  · have orders : own.bases.map (⟨c.models.push m⟩ : Catalog).orderOf =
        own.bases.map c.orderOf :=
      List.map_congr_left fun b given => by rw [orderOf_push, if_neg (known i own found b given)]
    rw [orders]
    rcases model?_push.mp found with old | ⟨rfl, rfl⟩
    · exact h.merged i own old
    · exact completes.numbered ▸ Linearization.of_eq_some completes.ordered
  · have values : own.bases.findSome? ((⟨c.models.push m⟩ : Catalog).valueOf s) =
        own.bases.findSome? (c.valueOf s) :=
      findSome?_congr fun b given => by rw [valueOf_push, if_neg (known i own found b given)]
    rw [values, given?_append]
    rcases model?_push.mp found with old | ⟨rfl, rfl⟩
    · obtain ⟨inside, -⟩ := Array.getElem?_eq_some_iff.mp old
      rw [if_neg (Nat.ne_of_lt (size ▸ inside))]
      exact h.settings i own old s
    · rw [if_pos size]
      exact completes.endowed.of?_eq h.named s

theorem empty : empty.Settled [] where
  inherits := inherits_empty
  named := fun _ _ found => nomatch found
  early := fun _ _ found => nomatch found
  merged := fun _ _ found => nomatch found
  settings := fun _ _ found => nomatch found

/-- Classes entered one after the other. -/
theorem foldlM (h : c.Settled ds) {more : List Definition}
    (made : more.foldlM define c = .ok c') : c'.Settled (ds ++ more) := by
  induction more generalizing c ds with
  | nil =>
    cases made
    rwa [List.append_nil]
  | cons d rest ih =>
    obtain ⟨between, entered, made⟩ := ok_of_bind made
    obtain ⟨m, rfl, completes⟩ := h.inherits.numbered.define_eq_ok entered
    rw [List.append_cons]
    exact ih (h.push completes) made


variable {a b x : Ancestor} {i : ModelId}

/-- A class that is there, with the list of its bases and the rest of its ancestry. -/
theorem exists_rest (h : c.Settled ds) (found : c.model? i = some m) :
    ∃ rest, c.orderOf (.model i) = .model i :: rest ∧ m.bases.Sublist rest ∧ rest.Nodup ∧
      (∀ b ∈ m.bases, (c.orderOf b).Sublist rest) ∧
      ∀ x ∈ rest, x ∈ m.bases ∨ ∃ b ∈ m.bases, x ∈ c.orderOf b := by
  obtain ⟨rest, headed, merges⟩ := h.merged i m found
  refine ⟨rest, by simp [orderOf, found, headed], merges.sublist (by simp), merges.nodup,
    fun b given => merges.sublist ?_, fun x there => ?_⟩
  · exact List.mem_append_left _ (List.mem_map_of_mem given)
  · obtain ⟨l, listed, own⟩ := merges.mem there
    rcases List.mem_append.mp listed with order | last
    · obtain ⟨base, given, rfl⟩ := List.mem_map.mp order
      exact .inr ⟨base, given, own⟩
    · exact .inl (List.mem_singleton.mp last ▸ own)

theorem donor?_eq (found : c.model? i = some m) (s : Setting) :
    c.donor? s (.model i) = m.bases.find? fun b => (c.valueOf s b).isSome := by
  simp [donor?, basesOf, found]

theorem valueOf_eq (h : c.Settled ds) (found : c.model? i = some m) (s : Setting) :
    c.valueOf s (.model i) =
      (given? ds s (.model i)).or (((c.donor? s (.model i)).bind (c.valueOf s)).or s.root?) := by
  rw [donor?_eq found, ← findSome?_eq_bind_find?, ← h.settings i m found, valueOf, found]
  rfl

/-- What gives a setting is a class that is there. -/
theorem exists_of_given? (h : c.Settled ds) {v : Value} (given : given? ds s a = some v) :
    ∃ i m, a = .model i ∧ c.model? i = some m := by
  cases a with
  | model i =>
    obtain ⟨d, there, -⟩ := Option.bind_eq_some_iff.mp given
    obtain ⟨inside, -⟩ := List.getElem?_eq_some_iff.mp there
    exact ⟨i, _, rfl, Array.getElem?_eq_getElem (h.inherits.sized ▸ inside)⟩
  | _ => cases given

/-- A class behind a class is a base of it or behind one. -/
theorem exists_base_of_given? (h : c.Settled ds) (found : c.model? i = some m) {v : Value}
    (there : x ∈ (c.orderOf (.model i)).drop 1) (given : given? ds s x = some v) :
    ∃ b ∈ m.bases, x ∈ c.orderOf b := by
  obtain ⟨rest, headed, -, -, -, sources⟩ := h.exists_rest found
  rw [headed] at there
  rcases sources x there with base | behind
  · obtain ⟨j, own, rfl, other⟩ := h.exists_of_given? given
    obtain ⟨rest, headed, -⟩ := h.exists_rest other
    exact ⟨_, base, headed ▸ .head _⟩
  · exact behind

/-- Where a class of the ancestry gives a setting there is a value. -/
theorem valueOf_isSome (h : c.Settled ds) {v : Value} (there : x ∈ c.orderOf a)
    (given : given? ds s x = some v) : (c.valueOf s a).isSome := by
  induction a using h.inherits.along with
  | step a ih =>
    cases a with
    | model i =>
      cases found : c.model? i with
      | none => simp [orderOf, found] at there
      | some m =>
        obtain ⟨rest, headed, sub, -⟩ := h.exists_rest found
        rw [valueOf, found, Option.bind_some, h.settings i m found]
        rw [headed] at there
        rcases List.mem_cons.mp there with rfl | behind
        · simp [given]
        · obtain ⟨b, base, known⟩ := h.exists_base_of_given? found (headed ▸ behind) given
          have has := ih b (headed ▸ sub.subset base) known
          have donated : (m.bases.findSome? (c.valueOf s)).isSome :=
            List.findSome?_isSome_iff.mpr ⟨b, base, has⟩
          simp [Option.isSome_or, donated]
    | _ =>
      obtain rfl := List.mem_singleton.mp there
      cases given

/-- What a class has is given on a class of its ancestry, or it is what the root has. -/
theorem exists_given_of_valueOf (h : c.Settled ds) {v : Value} (has : c.valueOf s a = some v) :
    (∃ x ∈ c.orderOf a, given? ds s x = some v) ∨ s.root? = some v := by
  induction a using h.inherits.along generalizing v with
  | step a ih =>
    cases a with
    | model i =>
      obtain ⟨m, found, own⟩ := Option.bind_eq_some_iff.mp has
      obtain ⟨rest, headed, sub, -, orders, -⟩ := h.exists_rest found
      rw [h.settings i m found, Option.or_eq_some_iff, Option.or_eq_some_iff] at own
      rcases own with given | ⟨-, donated | ⟨-, root⟩⟩
      · exact .inl ⟨_, headed ▸ .head _, given⟩
      · obtain ⟨b, base, has⟩ := List.exists_of_findSome?_eq_some donated
        rcases ih b (headed ▸ sub.subset base) has with ⟨x, known, given⟩ | root
        · exact .inl ⟨x, headed ▸ .tail _ ((orders b base).subset known), given⟩
        · exact .inr root
      · exact .inr root
    | deletion => cases has
    | root => exact .inr has

/-- A class that leaves a setting out looks it up behind itself. -/
theorem sought?_eq (h : c.Settled ds) (found : c.model? i = some m) (s : Setting) :
    c.sought? ds s (.model i) = (given? ds s (.model i)).or
      ((((c.orderOf (.model i)).drop 1).findSome? (given? ds s)).or s.root?) := by
  obtain ⟨rest, headed, -⟩ := h.exists_rest found
  rw [sought?, headed, findSome?_cons_eq_or, Option.or_assoc]
  rfl

theorem donor?_mem (h : c.Settled ds) (found : c.model? i = some m)
    (donated : c.donor? s (.model i) = some b) :
    b ∈ m.bases ∧ b ∈ (c.orderOf (.model i)).drop 1 ∧ (c.valueOf s b).isSome := by
  rw [donor?_eq found] at donated
  obtain ⟨rest, headed, sub, -⟩ := h.exists_rest found
  have base := List.mem_of_find?_eq_some donated
  exact ⟨base, headed ▸ sub.subset base, by simpa using List.find?_some donated⟩

/-- A class without a base that has something has no class behind it that gives it. -/
theorem given?_eq_none_of_donor? (h : c.Settled ds) (found : c.model? i = some m)
    (alone : c.donor? s (.model i) = none) :
    ((c.orderOf (.model i)).drop 1).findSome? (given? ds s) = none := by
  refine List.findSome?_eq_none_iff.mpr fun x behind => ?_
  refine Option.eq_none_iff_forall_ne_some.mpr fun v given => ?_
  obtain ⟨b, base, known⟩ := h.exists_base_of_given? found behind given
  exact List.find?_eq_none.mp (donor?_eq found s ▸ alone) b base (h.valueOf_isSome known given)

theorem valueOf_eq_sought?_of_not_model (has : (c.valueOf s a).isSome)
    (other : ∀ i, a ≠ .model i) : c.valueOf s a = c.sought? ds s a := by
  cases a with
  | model i => exact absurd rfl (other i)
  | deletion => cases has
  | root => simp [valueOf, sought?, orderOf, given?]

/-- The settings of a class and of its ancestors are those that lookup finds if and only if lookup
from the base that donates a setting ends where it does from the class that leaves it out. -/
theorem valueOf_eq_sought?_iff (h : c.Settled ds) (a : Ancestor) (s : Setting) :
    (∀ i, .model i ∈ c.orderOf a → c.valueOf s (.model i) = c.sought? ds s (.model i)) ↔
      ∀ i, .model i ∈ c.orderOf a → given? ds s (.model i) = none →
        ∀ b, c.donor? s (.model i) = some b → c.sought? ds s b = c.sought? ds s (.model i) := by
  have left {i : ModelId} {b : Ancestor} (there : .model i ∈ c.orderOf a)
      (omitted : given? ds s (.model i) = none) (donated : c.donor? s (.model i) = some b) :
      b ∈ (c.orderOf (.model i)).drop 1 ∧ b ∈ c.orderOf a ∧ (c.valueOf s b).isSome ∧
        c.valueOf s (.model i) = c.valueOf s b := by
    cases found : c.model? i with
    | none => simp [donor?, basesOf, found] at donated
    | some m =>
      obtain ⟨-, behind, has⟩ := h.donor?_mem found donated
      refine ⟨behind, (h.inherits.nested a _ there).subset (List.mem_of_mem_drop behind), has, ?_⟩
      obtain ⟨v, value⟩ := Option.isSome_iff_exists.mp has
      simp [h.valueOf_eq found, omitted, donated, value]
  constructor
  · intro follows i there omitted b donated
    obtain ⟨-, inside, has, same⟩ := left there omitted donated
    rw [← follows i there, same]
    cases b with
    | model j => exact (follows j inside).symm
    | _ => exact (valueOf_eq_sought?_of_not_model has fun _ => nofun).symm
  · intro ends i
    induction i using Nat.strongRecOn with
    | _ i ih =>
      intro there
      obtain ⟨m, found⟩ : ∃ m, c.model? i = some m :=
        ⟨_, Array.getElem?_eq_getElem (h.inherits.lt_of_mem there).1⟩
      cases omitted : given? ds s (.model i) with
      | some v => rw [h.valueOf_eq found, h.sought?_eq found, omitted, Option.some_or, Option.some_or]
      | none =>
        cases donated : c.donor? s (.model i) with
        | none =>
          rw [h.valueOf_eq found, h.sought?_eq found, omitted, donated,
            h.given?_eq_none_of_donor? found donated]
          rfl
        | some b =>
          obtain ⟨-, inside, has, same⟩ := left there omitted donated
          rw [same, ← ends i there omitted b donated]
          cases b with
          | model j => exact ih j (h.early i m found j (h.donor?_mem found donated).1) inside
          | _ => exact valueOf_eq_sought?_of_not_model has fun _ => nofun

/-- Of two members of a list without repetitions only one comes first. -/
theorem not_both_orders {α : Type} {l : List α} (distinct : l.Nodup) {a b : α}
    (forth : [a, b].Sublist l) : ¬ [b, a].Sublist l := by
  intro back
  induction l with
  | nil => cases forth
  | cons first rest ih =>
    obtain ⟨absent, distinct⟩ := List.nodup_cons.mp distinct
    cases forth with
    | cons _ forth =>
      cases back with
      | cons _ back => exact ih distinct forth back
      | cons_cons _ back => exact absent (forth.subset (.tail _ (.head _)))
    | cons_cons _ forth =>
      have behind : b ∈ rest := List.singleton_sublist.mp forth
      cases back with
      | cons _ back => exact absent (back.subset (.tail _ (.head _)))
      | cons_cons _ back => exact absent behind

/-- A later member that the test takes as well stands behind the first one. -/
theorem sublist_of_find? {α : Type} {l : List α} {p : α → Bool} {a b : α}
    (first : l.find? p = some a) (there : b ∈ l) (taken : p b = true) (other : b ≠ a) :
    [a, b].Sublist l := by
  obtain ⟨-, before, after, rfl, skipped⟩ := List.find?_eq_some_iff_append.mp first
  refine .trans (.cons_cons a ?_) (List.sublist_append_right _ _)
  rw [List.singleton_sublist]
  rcases List.mem_append.mp there with early | later
  · exact absurd taken (by simpa using skipped b early)
  · exact (List.mem_cons.mp later).resolve_left other

/-- Where of two classes of the ancestry one knows the other, the base that donates a setting knows
each class behind that gives it. -/
theorem known_of_line (h : c.Settled ds) (found : c.model? i = some m) {v : Value}
    (line : ∀ x ∈ c.orderOf (.model i), ∀ y ∈ c.orderOf (.model i), x ≠ .deletion → y ≠ .deletion →
      x ∈ c.orderOf y ∨ y ∈ c.orderOf x)
    (donated : c.donor? s (.model i) = some b) (behind : x ∈ (c.orderOf (.model i)).drop 1)
    (given : given? ds s x = some v) : x ∈ c.orderOf b := by
  obtain ⟨base, after, has⟩ := h.donor?_mem found donated
  obtain ⟨other, base', known⟩ := h.exists_base_of_given? found behind given
  have alive : x ≠ .deletion ∧ b ≠ .deletion :=
    ⟨fun same => by simp [same, given?] at given, fun same => by simp [same, valueOf] at has⟩
  rcases line x (List.mem_of_mem_drop behind) b (List.mem_of_mem_drop after) alive.1 alive.2 with
    done | under
  · exact done
  by_cases same : other = b
  · exact same ▸ known
  -- the other base has a value too, so it is named later, but its order has the donor behind it
  obtain ⟨rest, headed, sub, distinct, orders, -⟩ := h.exists_rest found
  have forth : [b, other].Sublist rest :=
    (sublist_of_find? (donor?_eq found s ▸ donated) base' (h.valueOf_isSome known given) same).trans
      sub
  have back : [other, b].Sublist rest := by
    refine .trans ?_ (orders other base')
    have inside := (h.inherits.nested other x known).subset under
    obtain ⟨empty, -⟩ | first := h.inherits.orderOf_eq other
    · simp [empty] at known
    · rw [first] at inside ⊢
      exact .cons_cons _ (List.singleton_sublist.mpr
        ((List.mem_cons.mp inside).resolve_left (Ne.symm same)))
  exact absurd back (not_both_orders distinct forth)

/-- Where of two classes of the ancestry one knows the other, a class has what lookup finds. -/
theorem valueOf_eq_sought?_of_line (h : c.Settled ds) (found : c.model? i = some m) (s : Setting)
    (line : ∀ x ∈ c.orderOf (.model i), ∀ y ∈ c.orderOf (.model i), x ≠ .deletion → y ≠ .deletion →
      x ∈ c.orderOf y ∨ y ∈ c.orderOf x) :
    c.valueOf s (.model i) = c.sought? ds s (.model i) := by
  obtain ⟨_, headed, -⟩ := h.exists_rest found
  refine (h.valueOf_eq_sought?_iff (.model i) s).mpr (fun j there omitted b donated => ?_) i
    (headed ▸ .head _)
  obtain ⟨own, earlier⟩ : ∃ own, c.model? j = some own :=
    ⟨_, Array.getElem?_eq_getElem (h.inherits.lt_of_mem there).1⟩
  obtain ⟨rest, whole, -, distinct, orders, -⟩ := h.exists_rest earlier
  obtain ⟨base, -, -⟩ := h.donor?_mem earlier donated
  have part := orders b base
  rw [h.sought?_eq earlier, omitted, Option.none_or, sought?, whole]
  congr 1
  show _ = rest.findSome? (given? ds s)
  cases looked : rest.findSome? (given? ds s) with
  | none =>
    rw [List.findSome?_eq_none_iff] at looked ⊢
    exact fun x there => looked x (part.subset there)
  | some v =>
    rw [findSome?_eq_bind_find?, Option.bind_eq_some_iff] at looked ⊢
    obtain ⟨x, first, given⟩ := looked
    have behind : x ∈ (c.orderOf (.model j)).drop 1 := whole ▸ List.mem_of_find?_eq_some first
    have inside := (h.inherits.nested _ _ there).subset
    have known := h.known_of_line earlier
      (fun x hx y hy => line x (inside hx) y (inside hy)) donated behind given
    exact ⟨x, find?_of_sublist part distinct first known, given⟩

/-- With nothing given anywhere there is what the root has. -/
theorem valueOf_eq_root? (h : c.Settled ds) (found : c.model? i = some m) (s : Setting)
    (silent : ∀ x ∈ c.orderOf (.model i), given? ds s x = none) :
    c.valueOf s (.model i) = s.root? := by
  cases has : c.valueOf s (.model i) with
  | none =>
    cases s with
    | table => rfl
    | _ => simp [valueOf, found, Setting.of?] at has
  | some v =>
    rcases h.exists_given_of_valueOf has with ⟨x, there, given⟩ | root
    · cases (silent x there).symm.trans given
    · exact root.symm

/-- Every class but one without a table has something of each setting, so the first base decides. -/
theorem valueOf_eq_first (h : c.Settled ds) (found : c.model? i = some m) (named : s ≠ .table)
    (omitted : given? ds s (.model i) = none) {first : Ancestor} {more : List Ancestor}
    (bases : m.bases = first :: more) (alive : first ≠ .deletion) :
    c.valueOf s (.model i) = c.valueOf s first := by
  have has : (c.valueOf s first).isSome := by
    cases first with
    | model j =>
      have lt := h.early i m found j (bases ▸ .head _)
      obtain ⟨inside, -⟩ := Array.getElem?_eq_some_iff.mp found
      obtain ⟨own, earlier⟩ : ∃ own, c.model? j = some own :=
        ⟨_, Array.getElem?_eq_getElem (Nat.lt_trans lt inside)⟩
      cases s with
      | table => exact absurd rfl named
      | _ => simp [valueOf, earlier, Setting.of?]
    | deletion => exact absurd rfl alive
    | root =>
      cases s with
      | table => exact absurd rfl named
      | _ => rfl
  obtain ⟨v, value⟩ := Option.isSome_iff_exists.mp has
  simp [h.valueOf_eq found, donor?_eq found, bases, omitted, value]

theorem tableName_eq (h : c.Settled ds) (found : c.model? i = some m) :
    m.tableName = (Setting.table.of? m).getD (.text (Text.lowercase m.name ++ "s")) := by
  have named := (h.named i m found).table
  rw [Setting.of?, Model.tableName]
  cases null : m.namedTable.isNull with
  | false => simp [named _ (if_neg (by simp [null])), unlessNull, null]
  | true =>
    have empty : ¬ m.namedTable.truthy = true := fun given => by
      simp [not_isNull_of_truthy given] at null
    simp [empty, unlessNull, null]

end Settled

/-- For all classes entered and for each setting: a class has what it gives itself, or what the first
of its bases has that has something, or what the root has. What it has is given on a class of its
ancestry, or by the root, which has the say where no class of the ancestry gives anything. Except for
tables, the first base decides alone. The classes of an ancestry have what lookup along the ancestry
finds if and only if lookup from each base that donates the setting ends where it does from the class
that leaves it out; in a line of ancestors it does. A class without a table takes the one that its
name makes. -/
theorem settings_along_bases (made : ds.foldlM define empty = .ok c) (there : m ∈ c.models)
    (s : Setting) :
    s.of? m = (given? ds s (.model m.id)).or ((m.bases.findSome? (c.valueOf s)).or s.root?) ∧
      (∀ v, s.of? m = some v → (∃ a ∈ m.ancestry, given? ds s a = some v) ∨ s.root? = some v) ∧
      ((∀ a ∈ m.ancestry, given? ds s a = none) → s.of? m = s.root?) ∧
      (s ≠ .table → given? ds s (.model m.id) = none → ∀ first more, m.bases = first :: more →
        first ≠ .deletion → s.of? m = c.valueOf s first) ∧
      ((∀ i, .model i ∈ m.ancestry → c.valueOf s (.model i) = c.sought? ds s (.model i)) ↔
        ∀ i, .model i ∈ m.ancestry → given? ds s (.model i) = none →
          ∀ b, c.donor? s (.model i) = some b → c.sought? ds s b = c.sought? ds s (.model i)) ∧
      ((∀ x ∈ m.ancestry, ∀ y ∈ m.ancestry, x ≠ .deletion → y ≠ .deletion →
        x ∈ c.orderOf y ∨ y ∈ c.orderOf x) → s.of? m = c.sought? ds s (.model m.id)) ∧
      m.tableName = (Setting.table.of? m).getD (.text (Text.lowercase m.name ++ "s")) := by
  have h : c.Settled ds := Settled.empty.foldlM made
  have found := h.inherits.numbered.mem there
  have own : c.valueOf s (.model m.id) = s.of? m := by simp [valueOf, found]
  have order : c.orderOf (.model m.id) = m.ancestry := by simp [orderOf, found]
  rw [← own, ← order]
  refine ⟨own.trans (h.settings m.id m found s), fun v has => h.exists_given_of_valueOf has,
    h.valueOf_eq_root? found s, fun named omitted first more bases alive =>
    h.valueOf_eq_first found named omitted bases alive, h.valueOf_eq_sought?_iff _ s,
    h.valueOf_eq_sought?_of_line found s, h.tableName_eq found⟩

/-- A class without relations of its own and with settings as given. -/
def shelf (name : String) (bases : Option (List String)) (softDeletes : Value) : Definition :=
  let bare := heir name bases []
  { bare with settings := { bare.settings with softDeletes := softDeletes } }

/-- A plain class, one that keeps its deleted rows, and one with both as bases. -/
def shelves : List Definition :=
  [shelf "Plain" none .null, shelf "Shelved" none (.bool true),
    shelf "Both" (some ["Plain", "Shelved"]) .null]

def shelvesCatalog : Catalog := (shelves.foldlM define empty).toOption.getD empty

/-- The plain class, which comes first, passes on what the root has, and the class that keeps deleted
rows is not asked. -/
theorem both_does_not_keep_deleted : shelves.foldlM define empty = .ok shelvesCatalog ∧
    ∃ m ∈ shelvesCatalog.models,
      m.ancestry = [.model 2, .model 0, .model 1, .root, .deletion] ∧
      shelvesCatalog.sought? shelves .softDeletes (.model m.id) = some (.bool true) ∧
      m.softDeletes = false := by
  have made : shelves.foldlM define empty = .ok shelvesCatalog := rfl
  obtain ⟨m, found⟩ : ∃ m, shelvesCatalog.model? 2 = some m := ⟨_, rfl⟩
  have there : m ∈ shelvesCatalog.models := Array.mem_of_getElem? found
  have id : m.id = 2 := (Settled.empty.foldlM made).inherits.numbered 2 m found
  have order : shelvesCatalog.orderOf (.model 2) =
      [.model 2, .model 0, .model 1, .root, .deletion] := rfl
  have bases : shelvesCatalog.basesOf (.model 2) = [.model 0, .model 1] := rfl
  simp only [orderOf, basesOf, found, Option.map_some, Option.getD_some] at order bases
  obtain ⟨-, -, -, first, -⟩ := settings_along_bases made there .softDeletes
  have has := first (by simp) (id ▸ rfl) _ _ bases (by simp)
  have plain : shelvesCatalog.valueOf .softDeletes (.model 0) = some (.bool false) := rfl
  refine ⟨made, m, there, order, id ▸ rfl, ?_⟩
  simpa [Setting.of?, plain] using has

end Catalog

end Relata
