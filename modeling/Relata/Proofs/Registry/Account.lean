import Relata.Proofs.Loading.ForAll
import Relata.Proofs.Loading.Matching
import Relata.Proofs.Registry.Marks
import Relata.Proofs.Store.Slots

/-!
Marks as an account of what was done to them. From the moves alone it can be told which names are
marked for a row, which rows have been touched since a row was, and so which row may be dropped: the
marks are a map that keeps the rows touched last, and never more of them than the limit says.
-/

namespace Relata

namespace RowKey

/-- A row as one value. -/
def value (k : RowKey) : Value := .tuple [k.model, k.id]

/-- A row that can be a key and is equal to itself, as all but what is no number are. -/
structure IsKey (k : RowKey) : Prop where
  hash : k.value.isKey = true
  self : k.same k = true

variable {a b c : RowKey}

theorem same_value (a b : RowKey) : a.value.same b.value = a.same b := by
  simp [value, Value.same, Value.sameItems, same]

theorem same_symm (h : a.IsKey) (hs : a.same b = true) : b.same a = true := by
  rw [← same_value] at hs ⊢
  exact Value.same_symm h.hash hs

theorem same_trans (h : a.IsKey) (hab : a.same b = true) (hbc : b.same c = true) :
    a.same c = true := by
  rw [← same_value] at hab hbc ⊢
  exact Value.same_trans h.hash hab hbc

/-- Equal rows are equal to the same rows. -/
theorem same_congr (ha : a.IsKey) (hb : b.IsKey) (equal : a.same b = true) (c : RowKey) :
    a.same c = b.same c :=
  Bool.eq_iff_iff.mpr ⟨same_trans hb (same_symm ha equal), same_trans ha equal⟩

end RowKey

namespace Marks

/-- What is done to marks in one go. -/
inductive Move where
  | mark (key : RowKey) (names : List Value)
  | ask (key : RowKey) (names : List Value)
  | forget (key : RowKey) (names : Option (List Value))
  | clear

/-- A row with that key is there. -/
def Present (m : Marks) (key : RowKey) : Prop := ∃ row ∈ m.rows, row.key.same key = true

namespace Move

/-- The marks that a move leaves. -/
def apply : Move → Marks → Marks
  | mark key names, m => (m.mark key (names.map .ok)).1
  | ask key names, m => (m.isLoaded key (names.map .ok)).1
  | forget key names, m => (m.forget key (names.map (·.map .ok))).1
  | clear, m => m.clear

/-- Its row and its names can be keys. -/
def Keyed : Move → Prop
  | mark key names | ask key names => key.IsKey ∧ ∀ name ∈ names, name.isKey = true
  | forget key names => key.IsKey ∧ ∀ given ∈ names, ∀ name ∈ given, name.isKey = true
  | clear => True

/-- It marks the row with the name. -/
def Records (key : RowKey) (name : Value) : Move → Prop
  | mark k names => k.same key = true ∧ names.any name.same = true
  | _ => False

/-- It takes the name off the row. -/
def Discards (key : RowKey) (name : Value) : Move → Prop
  | forget k names => k.same key = true ∧ ∀ given ∈ names, given.any name.same = true
  | clear => True
  | _ => False

/-- It takes the whole row out. -/
def Removes (key : RowKey) : Move → Prop
  | forget k none => k.same key = true
  | clear => True
  | _ => False

/-- The row that it touches: one that it marks, or asks about while it is there. -/
def touches (m : Marks) : Move → Option RowKey
  | mark key _ => if key.id.isNull then none else some key
  | ask key _ => if key.id.isNull then none else (m.find? key).map fun _ => key
  | _ => none

end Move

/-- The marks after moves, of which the last one stands first. -/
def after (limit : Value) : List Move → Marks
  | [] => .empty limit
  | move :: past => move.apply (after limit past)

/-- A name was marked for a row since the entry was made that the row has now, and has not been
forgotten since. -/
def Recorded (limit : Value) (past : List Move) (key : RowKey) (name : Value) : Prop :=
  ∃ since move before, past = since ++ move :: before ∧ move.Records key name ∧
    (∀ part, part <:+ since → (after limit (part ++ move :: before)).Present key) ∧
      ∀ later ∈ since, ¬ later.Discards key name

/-- The rows touched, the one touched last first. -/
def touched (limit : Value) : List Move → List Value
  | [] => []
  | move :: past =>
    ((move.touches (after limit past)).map RowKey.value).toList ++ touched limit past

/-- The rows touched since a row was. -/
def touchedSince (limit : Value) (past : List Move) (key : RowKey) : List Value :=
  (touched limit past).takeWhile (!·.same key.value)

/-! What each move makes of the rows. -/

theorem find?_eq_none_iff {m : Marks} {key : RowKey} : m.find? key = none ↔ ¬ m.Present key := by
  simp [find?, Present]

theorem mem_others {m : Marks} {key : RowKey} {row : Mark} :
    row ∈ m.others key ↔ row ∈ m.rows ∧ row.key.same key = false := by
  simp [others]

theorem evict_int (n : Nat) (rows : List Mark) :
    evict (.int n) rows = (rows.drop (rows.length - n), .ok ()) := by
  induction rows with
  | nil =>
    have within : Value.isBelow? (.int n) 0 = some false := by simp [Value.isBelow?]
    rw [evict, within, List.drop_nil]
  | cons own rest ih =>
    by_cases many : n < rest.length + 1
    · have below : Value.isBelow? (.int n) (rest.length + 1 : Nat) = some true := by
        simpa [Value.isBelow?] using (by omega : (n : Int) < rest.length + 1)
      rw [evict, below]
      dsimp only
      rw [ih, List.length_cons, show rest.length + 1 - n = (rest.length - n) + 1 by omega,
        List.drop_succ_cons]
    · have within : Value.isBelow? (.int n) (rest.length + 1 : Nat) = some false := by
        simpa [Value.isBelow?] using (by omega : (rest.length : Int) + 1 ≤ n)
      rw [evict, within]
      dsimp only
      rw [List.length_cons, show rest.length + 1 - n = 0 by omega, List.drop_zero]

/-- The entry of a row with more names. -/
def entry (m : Marks) (key : RowKey) (names : List Value) : Mark :=
  match m.find? key with
  | some own => ⟨own.key, (add own.names (names.map .ok)).1⟩
  | none => ⟨key, (add [] (names.map .ok)).1⟩

theorem rows_mark {m : Marks} {n : Nat} (limit : m.limit = .int n) {key : RowKey}
    (some_ : key.id.isNull = false) (names : List Value) :
    let last := m.entry key names
    ((Move.mark key names).apply m).rows =
      (m.others last.key ++ [last]).drop ((m.others last.key).length + 1 - n) := by
  simp only [Move.apply, mark, some_, Bool.false_eq_true, if_false, entry]
  cases m.find? key <;> simp [add_ok, limit, evict_int]

theorem mark_of_null {m : Marks} {key : RowKey} (null : key.id.isNull = true)
    (names : List Value) : (Move.mark key names).apply m = m := by
  simp [Move.apply, mark, null]

theorem rows_ask {m : Marks} {key : RowKey} (some_ : key.id.isNull = false) {own : Mark}
    (found : m.find? key = some own) (names : List Value) :
    ((Move.ask key names).apply m).rows = m.others key ++ [own] := by
  simp [Move.apply, isLoaded, some_, found]

/-- Asking about a row that is not there changes nothing. -/
theorem ask_of_absent {m : Marks} {key : RowKey} (names : List Value)
    (absent : key.id.isNull = true ∨ m.find? key = none) : (Move.ask key names).apply m = m := by
  rcases absent with null | none
  · simp [Move.apply, isLoaded, null]
  · simp [Move.apply, isLoaded, none]

theorem rows_forget {m : Marks} {key : RowKey} {own : Mark} (found : m.find? key = some own)
    (given : List Value) : ((Move.forget key (some given)).apply m).rows = m.rows.map fun row =>
      if row.key.same key then { row with names := (remove own.names (given.map .ok)).1 }
      else row := by
  simp [Move.apply, forget, found]

/-- Taking names off a row that is not there changes nothing. -/
theorem forget_of_absent {m : Marks} {key : RowKey} (none : m.find? key = none)
    (given : List Value) : (Move.forget key (some given)).apply m = m := by
  simp [Move.apply, forget, none]

@[simp] theorem limit_after (limit : Value) (past : List Move) :
    (after limit past).limit = limit := by
  induction past with
  | nil => rfl
  | cons move past ih =>
    cases move with
    | mark key names => exact (limit_mark _ _ _).trans ih
    | ask key names => exact (limit_isLoaded _ _ _).trans ih
    | forget key names =>
      refine Eq.trans ?_ ih
      simp only [after, Move.apply, forget]
      split <;> rfl
    | clear => exact ih

/-! The account, move by move. -/

variable {limit : Value} {past : List Move} {key : RowKey} {name : Value}

theorem Recorded.present (h : Recorded limit past key name) : (after limit past).Present key := by
  obtain ⟨since, move, before, rfl, -, there, -⟩ := h
  exact there since (List.suffix_refl since)

theorem recorded_cons {move : Move} : Recorded limit (move :: past) key name ↔
    (after limit (move :: past)).Present key ∧
      (move.Records key name ∨ Recorded limit past key name ∧ ¬ move.Discards key name) := by
  constructor
  · intro h
    refine ⟨h.present, ?_⟩
    obtain ⟨since, own, before, split, records, there, kept⟩ := h
    cases since with
    | nil =>
      obtain ⟨rfl, rfl⟩ := List.cons.inj split
      exact .inl records
    | cons later since =>
      obtain ⟨rfl, rfl⟩ := List.cons.inj split
      refine .inr ⟨⟨since, own, before, rfl, records, fun part h => ?_, fun l hl => ?_⟩, ?_⟩
      · exact there part (h.trans (List.suffix_cons move since))
      · exact kept l (.tail _ hl)
      · exact kept move (.head _)
  · rintro ⟨present, records | ⟨⟨since, own, before, rfl, records, there, kept⟩, stays⟩⟩
    · refine ⟨[], move, past, rfl, records, fun part h => ?_, List.forall_mem_nil _⟩
      rw [List.suffix_nil.mp h]
      exact present
    · refine ⟨move :: since, own, before, rfl, records, fun part h => ?_,
        List.forall_mem_cons.mpr ⟨stays, kept⟩⟩
      rcases List.suffix_cons_iff.mp h with rfl | within
      · exact present
      · exact there part within

/-- The second row has been touched since the first was. -/
def Later (limit : Value) (past : List Move) (a b : Mark) : Prop :=
  ∀ key : RowKey, key.IsKey → a.key.same key = true →
    ∃ t ∈ touchedSince limit past key, b.key.value.same t = true

/-- What the rows come to: each has a key of its own; those that stand behind a row have been touched
since; and a row is marked with the names recorded for it. -/
structure Accounts (limit : Value) (past : List Move) (rows : List Mark) : Prop where
  keyed : ∀ row ∈ rows, row.key.IsKey ∧ row.key.id.isNull = false
  once : rows.Pairwise fun a b => a.key.same b.key = false
  order : rows.Pairwise (Later limit past)
  names : ∀ row ∈ rows, ∀ key : RowKey, key.IsKey → row.key.same key = true →
    ∀ name : Value, name.isKey = true →
      (row.names.any name.same = true ↔ Recorded limit past key name)

theorem Accounts.sublist {rows kept : List Mark} (h : Accounts limit past rows)
    (sub : kept.Sublist rows) : Accounts limit past kept where
  keyed row there := h.keyed row (sub.subset there)
  once := h.once.sublist sub
  order := h.order.sublist sub
  names row there := h.names row (sub.subset there)

/-- The row of a key is the one that is found for it. -/
theorem Accounts.find_own {m : Marks} (h : Accounts limit past m.rows) {row : Mark}
    (there : row ∈ m.rows) (own : row.key.same key = true) : m.find? key = some row := by
  cases found : m.find? key with
  | none => exact absurd ⟨row, there, own⟩ (find?_eq_none_iff.mp found)
  | some other =>
    obtain ⟨own', before, rest, split, first⟩ := List.find?_eq_some_iff_append.mp found
    rw [split, List.mem_append, List.mem_cons] at there
    rcases there with early | rfl | late
    · simpa [own] using first row early
    · rfl
    · have keyed := h.keyed
      have once := h.once
      rw [split] at keyed once
      have apart := (List.pairwise_cons.mp (List.pairwise_append.mp once).2.1).1 row late
      have twins := RowKey.same_trans (keyed other (by simp)).1 own'
        (RowKey.same_symm (keyed row (by simp [late])).1 own)
      rw [apart] at twins
      cases twins

theorem touchedSince_cons_of_touches {move : Move} {k : RowKey}
    (touches : move.touches (after limit past) = some k) (apart : k.same key = false) :
    touchedSince limit (move :: past) key = k.value :: touchedSince limit past key := by
  simp [touchedSince, touched, touches, RowKey.same_value, apart]

theorem touchedSince_cons_of_untouched {move : Move}
    (none : move.touches (after limit past) = none) (key : RowKey) :
    touchedSince limit (move :: past) key = touchedSince limit past key := by
  simp [touchedSince, touched, none]

/-- Names taken in are those that were there and those given. -/
theorem any_add {there names : List Value} (hname : name.isKey = true) :
    (add there (names.map .ok)).1.any name.same = true ↔
      there.any name.same = true ∨ names.any name.same = true := by
  induction names generalizing there with
  | nil => simp [add]
  | cons v rest ih =>
    rw [List.map_cons, add, ih, List.any_cons, Bool.or_eq_true, ← or_assoc]
    refine or_congr_left ?_
    split
    · next known =>
      obtain ⟨v', there', equal⟩ := List.any_eq_true.mp known
      refine ⟨.inl, fun either => either.elim id fun own => ?_⟩
      exact List.any_eq_true.mpr ⟨v', there', Value.same_trans hname own equal⟩
    · simp

/-- Names taken out are those given. -/
theorem any_remove {there names : List Value} (given : ∀ v ∈ names, v.isKey = true)
    (hname : name.isKey = true) :
    (remove there (names.map .ok)).1.any name.same = true ↔
      there.any name.same = true ∧ names.any name.same = false := by
  induction names generalizing there with
  | nil => simp [remove]
  | cons v rest ih =>
    have hv := given v (.head _)
    rw [List.map_cons, remove, ih fun v' h => given v' (.tail _ h), List.any_cons,
      Bool.or_eq_false_iff, ← and_assoc]
    refine and_congr_left fun _ => ?_
    simp only [List.any_eq_true, List.mem_filter, Bool.not_eq_true']
    constructor
    · rintro ⟨x, ⟨hx, apart⟩, own⟩
      refine ⟨⟨x, hx, own⟩, Bool.eq_false_iff.mpr fun equal => ?_⟩
      rw [Value.same_trans hv (Value.same_symm hname equal) own] at apart
      cases apart
    · rintro ⟨⟨x, hx, own⟩, apart⟩
      refine ⟨x, ⟨hx, Bool.eq_false_iff.mpr fun equal => ?_⟩, own⟩
      have both := Value.same_trans hname own (Value.same_symm hv equal)
      rw [apart] at both
      cases both

/-- A move that is about another row than the one of the key. -/
def Move.Apart (key : RowKey) : Move → Prop
  | mark k _ | ask k _ | forget k _ => k.same key = false
  | clear => False

theorem Move.Apart.records {move : Move} (h : move.Apart key) : ¬ move.Records key name := by
  cases move <;> simp_all [Apart, Records]

theorem Move.Apart.discards {move : Move} (h : move.Apart key) : ¬ move.Discards key name := by
  cases move <;> simp_all [Apart, Discards]

theorem Move.Apart.touches {move : Move} (h : move.Apart key) {m : Marks} {k : RowKey}
    (own : move.touches m = some k) : k.same key = false := by
  cases move with
  | mark key' _ =>
    simp only [Move.touches, Option.ite_none_left_eq_some, Option.some.injEq] at own
    exact own.2 ▸ h
  | ask key' _ =>
    simp only [Move.touches, Option.ite_none_left_eq_some, Option.map_eq_some_iff] at own
    obtain ⟨_, _, _, rfl⟩ := own
    exact h
  | forget | clear => cases own

theorem touchedSince_subset {move : Move} (h : move.Apart key) {t : Value}
    (there : t ∈ touchedSince limit past key) : t ∈ touchedSince limit (move :: past) key := by
  cases touches : move.touches (after limit past) with
  | none => rwa [touchedSince_cons_of_untouched touches]
  | some k =>
    rw [touchedSince_cons_of_touches touches (h.touches touches)]
    exact .tail _ there

/-- The account of rows that a move is not about stays. -/
theorem Accounts.passed {move : Move} {rows kept : List Mark} (h : Accounts limit past rows)
    (sub : kept.Sublist rows) (still : kept.Sublist (after limit (move :: past)).rows)
    (apart : ∀ row ∈ kept, ∀ key : RowKey, key.IsKey → row.key.same key = true → move.Apart key) :
    Accounts limit (move :: past) kept := by
  have before := h.sublist sub
  refine ⟨before.keyed, before.once, ?_, fun row there key hkey own name hname => ?_⟩
  · refine before.order.imp_of_mem fun {a b} ha _ touched key hkey own => ?_
    exact (touched key hkey own).imp fun t ht =>
      ⟨touchedSince_subset (apart a ha key hkey own) ht.1, ht.2⟩
  · have apart := apart row there key hkey own
    rw [before.names row there key hkey own name hname, recorded_cons]
    exact ⟨fun recorded => ⟨⟨row, still.subset there, own⟩, .inr ⟨recorded, apart.discards⟩⟩,
      fun h => (h.2.resolve_left apart.records).1⟩

/-- The row of a key that stands among the others is another one. -/
theorem Accounts.apart_of_other {m : Marks} (h : Accounts limit past m.rows) {own : RowKey}
    (hown : own.IsKey) {row : Mark} (there : row ∈ m.others own) (same : row.key.same key = true) :
    own.same key = false := by
  obtain ⟨there, apart⟩ := mem_others.mp there
  refine Bool.eq_false_iff.mpr fun equal => ?_
  rw [RowKey.same_trans (h.keyed row there).1 same (RowKey.same_symm hown equal)] at apart
  cases apart

/-- A move touches a row, of which the entry is to stand last, and no row apart from it. -/
structure Touch (limit : Value) (past : List Move) (move : Move) (k : RowKey) (last : Mark) :
    Prop where
  touches : move.touches (after limit past) = some k
  hk : k.IsKey
  keyed : last.key.IsKey ∧ last.key.id.isNull = false
  twin : ∀ key : RowKey, last.key.same key = k.same key
  apart : ∀ key : RowKey, k.same key = false → move.Apart key

/-- The row touched stands behind all others. -/
theorem Accounts.order_touched {move : Move} {k : RowKey} {last : Mark}
    (h : Accounts limit past (after limit past).rows) (touch : Touch limit past move k last) :
    ((after limit past).others last.key ++ [last]).Pairwise (Later limit (move :: past)) := by
  have other {row : Mark} (there : row ∈ (after limit past).others last.key) {key : RowKey}
      (own : row.key.same key = true) : k.same key = false :=
    touch.twin key ▸ h.apart_of_other touch.keyed.1 there own
  refine List.pairwise_append.mpr ⟨?_, List.pairwise_singleton _ _, fun a ha b hb key hkey own => ?_⟩
  · refine (h.order.sublist List.filter_sublist).imp_of_mem fun ha _ later key hkey own => ?_
    exact (later key hkey own).imp fun t ht =>
      ⟨touchedSince_subset (touch.apart key (other ha own)) ht.1, ht.2⟩
  · rw [List.mem_singleton.mp hb, touchedSince_cons_of_touches touch.touches (other ha own)]
    refine ⟨k.value, .head _, ?_⟩
    rw [RowKey.same_value, touch.twin]
    exact touch.hk.self

/-- The account after a row was touched, the front ones dropped as may be. -/
theorem Accounts.touched {move : Move} {k : RowKey} {last : Mark} {d : Nat}
    (h : Accounts limit past (after limit past).rows) (touch : Touch limit past move k last)
    (rows : (after limit (move :: past)).rows =
      ((after limit past).others last.key ++ [last]).drop d)
    (names : ∀ key : RowKey, key.IsKey → last.key.same key = true → ∀ name : Value,
      name.isKey = true → (last.names.any name.same = true ↔
        move.Records key name ∨ Recorded limit past key name ∧ ¬ move.Discards key name)) :
    Accounts limit (move :: past) (after limit (move :: past)).rows := by
  let old := (after limit past).others last.key
  have sub : old.Sublist (after limit past).rows := List.filter_sublist
  have kept : (after limit (move :: past)).rows.Sublist (old ++ [last]) :=
    rows ▸ List.drop_sublist d _
  have old_or_last {row : Mark} (there : row ∈ (after limit (move :: past)).rows) :
      row ∈ old ∨ row = last := by simpa using kept.subset there
  refine ⟨fun row there => ?_, List.Pairwise.sublist kept ?_, (h.order_touched touch).sublist kept,
    fun row there key hkey own name hname => ?_⟩
  · exact (old_or_last there).elim (fun there => h.keyed row (sub.subset there))
      fun same => same ▸ touch.keyed
  · refine List.pairwise_append.mpr ⟨h.once.sublist sub, List.pairwise_singleton _ _,
      fun a ha b hb => ?_⟩
    rw [List.mem_singleton.mp hb]
    exact (mem_others.mp ha).2
  · rw [recorded_cons, and_iff_right ⟨row, there, own⟩]
    rcases old_or_last there with old | rfl
    · have apart := touch.apart key (touch.twin key ▸ h.apart_of_other touch.keyed.1 old own)
      rw [h.names row (sub.subset old) key hkey own name hname]
      exact ⟨fun recorded => .inr ⟨recorded, apart.discards⟩,
        fun either => (either.resolve_left apart.records).1⟩
    · exact names key hkey own name hname

theorem isNull_of_same {a b : RowKey} (h : a.same b = true) (null : a.id.isNull = true) :
    b.id.isNull = true := by
  have ids : a.id.same b.id = true := (Bool.and_eq_true_iff.mp h).2
  cases ha : a.id <;> rw [ha] at null ids <;> try cases null
  rw [Value.eq_of_same_of_isAtom rfl ids]
  rfl

theorem not_present_of_absent {k : RowKey} (h : Accounts limit past (after limit past).rows)
    (absent : k.id.isNull = true ∨ (after limit past).find? k = none) :
    ¬ (after limit past).Present k := by
  rcases absent with null | none
  · rintro ⟨row, there, own⟩
    have some_ := (h.keyed row there).2
    rw [isNull_of_same (RowKey.same_symm (h.keyed row there).1 own) null] at some_
    cases some_
  · exact find?_eq_none_iff.mp none

/-- A move about a row that is not there, if it leaves the rows as they are. -/
theorem Accounts.idle {move : Move} {k : RowKey} (h : Accounts limit past (after limit past).rows)
    (hk : k.IsKey) (absent : ¬ (after limit past).Present k)
    (about : ∀ key : RowKey, k.same key = false → move.Apart key)
    (unchanged : (after limit (move :: past)).rows = (after limit past).rows) :
    Accounts limit (move :: past) (after limit (move :: past)).rows := by
  refine unchanged ▸ h.passed (.refl _) (by rw [unchanged]) fun row there key hkey own => ?_
  refine about key (Bool.eq_false_iff.mpr fun equal => absent ⟨row, there, ?_⟩)
  exact RowKey.same_trans (h.keyed row there).1 own (RowKey.same_symm hk equal)

/-- The entry that a mark makes of a row. -/
theorem Accounts.entry {k : RowKey} (hk : k.IsKey) (null : k.id.isNull = false)
    (h : Accounts limit past (after limit past).rows) (names : List Value) :
    let last := (after limit past).entry k names
    Touch limit past (.mark k names) k last ∧
    ∀ key : RowKey, key.IsKey → last.key.same key = true → ∀ name : Value, name.isKey = true →
      (last.names.any name.same = true ↔
        names.any name.same = true ∨ Recorded limit past key name) := by
  have touches : (Move.mark k names).touches (after limit past) = some k := by
    simp [Move.touches, null]
  cases found : (after limit past).find? k with
  | some own =>
    obtain ⟨there, same⟩ := mem_of_find? found
    have keyed := h.keyed own there
    have last : (after limit past).entry k names = ⟨own.key, (add own.names (names.map .ok)).1⟩ := by
      simp [Marks.entry, found]
    rw [last]
    refine ⟨⟨touches, hk, keyed, RowKey.same_congr keyed.1 hk same, fun _ apart => apart⟩,
      fun key hkey equal name hname => ?_⟩
    rw [any_add hname, h.names own there key hkey equal name hname, or_comm]
  | none =>
    have last : (after limit past).entry k names = ⟨k, (add [] (names.map .ok)).1⟩ := by
      simp [Marks.entry, found]
    rw [last]
    refine ⟨⟨touches, hk, ⟨hk, null⟩, fun _ => rfl, fun _ apart => apart⟩,
      fun key hkey equal name hname => ?_⟩
    have unrecorded : ¬ Recorded limit past key name := fun recorded => by
      obtain ⟨row, there, own⟩ := recorded.present
      exact find?_eq_none_iff.mp found ⟨row, there,
        RowKey.same_trans (h.keyed row there).1 own (RowKey.same_symm hk equal)⟩
    simp [any_add hname, unrecorded]

theorem Accounts.mark {n : Nat} {k : RowKey} {names : List Value} (hk : k.IsKey)
    (h : Accounts (.int n) past (after (.int n) past).rows) :
    Accounts (.int n) (.mark k names :: past) (after (.int n) (.mark k names :: past)).rows := by
  cases null : k.id.isNull with
  | true =>
    exact h.idle hk (not_present_of_absent h (.inl null)) (fun _ apart => apart)
      (by rw [after, mark_of_null null])
  | false =>
    obtain ⟨touch, marked⟩ := h.entry hk null names
    refine h.touched touch (rows_mark (limit_after (.int n) past) null names)
      fun key hkey equal name hname => ?_
    have about : k.same key = true := touch.twin key ▸ equal
    rw [marked key hkey equal name hname]
    simp [Move.Records, Move.Discards, about]

theorem others_congr {m : Marks} {a b : RowKey} (keyed : ∀ row ∈ m.rows, row.key.IsKey)
    (ha : a.IsKey) (equal : a.same b = true) : m.others a = m.others b := by
  refine List.filter_congr fun row there => congrArg (!·) ?_
  refine Bool.eq_iff_iff.mpr ⟨fun own => ?_, fun own => ?_⟩
  · exact RowKey.same_trans (keyed row there) own equal
  · exact RowKey.same_trans (keyed row there) own (RowKey.same_symm ha equal)

theorem Accounts.ask {k : RowKey} {names : List Value} (hk : k.IsKey)
    (h : Accounts limit past (after limit past).rows) :
    Accounts limit (.ask k names :: past) (after limit (.ask k names :: past)).rows := by
  let m := after limit past
  have idle (absent : k.id.isNull = true ∨ m.find? k = none) :
      Accounts limit (.ask k names :: past) (after limit (.ask k names :: past)).rows :=
    h.idle hk (not_present_of_absent h absent) (fun _ apart => apart)
      (by rw [after, ask_of_absent names absent])
  cases null : k.id.isNull with
  | true => exact idle (.inl null)
  | false =>
    cases found : m.find? k with
    | none => exact idle (.inr found)
    | some own =>
      obtain ⟨there, same⟩ := mem_of_find? found
      have keyed := h.keyed own there
      have touches : (Move.ask k names).touches m = some k := by simp [Move.touches, null, found]
      have others : m.others k = m.others own.key :=
        others_congr (fun row there => (h.keyed row there).1) hk (RowKey.same_symm keyed.1 same)
      have touch : Touch limit past (.ask k names) k own :=
        ⟨touches, hk, keyed, RowKey.same_congr keyed.1 hk same, fun _ apart => apart⟩
      refine h.touched (d := 0) touch ?_ fun key hkey equal name hname => ?_
      · rw [after, rows_ask null found, others, List.drop_zero]
      · rw [h.names own there key hkey equal name hname]
        simp [Move.Records, Move.Discards]

theorem Accounts.forget {k : RowKey} {names : Option (List Value)} (hk : k.IsKey)
    (hnames : ∀ given ∈ names, ∀ name ∈ given, name.isKey = true)
    (h : Accounts limit past (after limit past).rows) :
    Accounts limit (.forget k names :: past) (after limit (.forget k names :: past)).rows := by
  let m := after limit past
  cases names with
  | none =>
    have rows : (after limit (.forget k none :: past)).rows = m.others k := rfl
    rw [rows]
    refine h.passed List.filter_sublist (by rw [rows]) fun row there key hkey own => ?_
    obtain ⟨there, apart⟩ := mem_others.mp there
    refine Bool.eq_false_iff.mpr fun equal => ?_
    rw [RowKey.same_trans (h.keyed row there).1 own (RowKey.same_symm hk equal)] at apart
    cases apart
  | some given =>
    cases found : m.find? k with
    | none =>
      exact h.idle hk (find?_eq_none_iff.mp found) (fun _ apart => apart)
        (by rw [after, forget_of_absent found])
    | some own =>
      obtain ⟨there, same⟩ := mem_of_find? found
      let left : Mark → Mark := fun row =>
        if row.key.same k then { row with names := (remove own.names (given.map .ok)).1 } else row
      have rows : (after limit (.forget k (some given) :: past)).rows = m.rows.map left :=
        rows_forget found given
      have key_left (row : Mark) : (left row).key = row.key := by
        simp only [left]
        split <;> rfl
      have untouched (key : RowKey) :
          touchedSince limit (.forget k (some given) :: past) key = touchedSince limit past key :=
        touchedSince_cons_of_untouched rfl key
      rw [rows]
      refine ⟨?_, ?_, ?_, ?_⟩
      · simpa [key_left] using h.keyed
      · simpa [List.pairwise_map, key_left] using h.once
      · refine List.pairwise_map.mpr (h.order.imp fun later key hkey own => ?_)
        rw [key_left] at own ⊢
        exact untouched key ▸ later key hkey own
      · refine List.forall_mem_map.mpr fun row there key hkey equal name hname => ?_
        rw [key_left] at equal
        have keyed := (h.keyed row there).1
        have present : (after limit (.forget k (some given) :: past)).Present key :=
          ⟨left row, rows ▸ List.mem_map_of_mem there, by rwa [key_left]⟩
        rw [recorded_cons, ← h.names row there key hkey equal name hname]
        by_cases about : row.key.same k = true
        · have own : row = own := Option.some.inj ((h.find_own there about).symm.trans found)
          have about' : k.same key = true := RowKey.same_trans hk (RowKey.same_symm keyed about) equal
          have names : (left row).names = (remove row.names (given.map .ok)).1 := by
            simp [left, own, same]
          simp [names, any_remove (hnames given rfl) hname, present, Move.Records, Move.Discards, about']
        · have about' : k.same key = false := Bool.eq_false_iff.mpr fun equal' =>
            about (RowKey.same_trans keyed equal (RowKey.same_symm hk equal'))
          have names : (left row).names = row.names := by simp [left, about]
          simp [names, present, Move.Records, Move.Discards, about']

/-- The account is kept by every move. -/
theorem Accounts.step {n : Nat} {move : Move} (hmove : move.Keyed)
    (h : Accounts (.int n) past (after (.int n) past).rows) :
    Accounts (.int n) (move :: past) (after (.int n) (move :: past)).rows := by
  cases move with
  | mark k names => exact h.mark hmove.1
  | ask k names => exact h.ask hmove.1
  | forget k names => exact h.forget hmove.1 hmove.2
  | clear => exact ⟨List.forall_mem_nil _, .nil, .nil, List.forall_mem_nil _⟩

/-- The account of any moves on no marks. -/
theorem accounts {n : Nat} {past : List Move} (keyed : ∀ move ∈ past, move.Keyed) :
    Accounts (.int n) past (after (.int n) past).rows := by
  induction past with
  | nil => exact ⟨List.forall_mem_nil _, .nil, .nil, List.forall_mem_nil _⟩
  | cons move past ih =>
    exact (ih fun own there => keyed own (.tail _ there)).step (keyed move (.head _))

/-! What can be read off the account. -/

/-- Rows apart from each other, each of which is among some values, are no more than those are. -/
theorem length_le_distinct {rows : List Mark} (keyed : ∀ row ∈ rows, row.key.IsKey)
    (once : rows.Pairwise fun a b => a.key.same b.key = false) {values : List Value}
    (among : ∀ row ∈ rows, ∃ t ∈ values, row.key.value.same t = true) :
    rows.length ≤ (Value.distinct values).length := by
  have image : ∀ row ∈ rows, ∃ d ∈ Value.distinct values, row.key.value.same d = true := by
    intro row there
    obtain ⟨t, ht, own⟩ := among row there
    obtain ⟨d, hd, rfl | equal⟩ := Value.among_distinct ht
    · exact ⟨_, hd, own⟩
    · exact ⟨d, hd, Value.same_trans (keyed row there).hash own equal⟩
  choose! f hf own using image
  have apart : (rows.map f).Nodup := by
    refine List.pairwise_map.mpr (once.imp_of_mem fun {a b} ha hb apart equal => ?_)
    have both := Value.same_trans (keyed a ha).hash (own a ha)
      (Value.same_symm (keyed b hb).hash (equal ▸ own b hb))
    rw [RowKey.same_value, apart] at both
    cases both
  calc rows.length = (rows.map f).length := (List.length_map f).symm
    _ ≤ (Value.distinct values).length :=
      (List.subperm_of_subset apart (List.forall_mem_map.mpr hf)).length_le

theorem length_rows_le (n : Nat) (past : List Move) : (after (.int n) past).rows.length ≤ n := by
  induction past with
  | nil => exact Nat.zero_le n
  | cons move past ih =>
    let m := after (.int n) past
    cases move with
    | mark k names =>
      cases null : k.id.isNull with
      | true => rwa [after, mark_of_null null]
      | false =>
        rw [after, rows_mark (limit_after (.int n) past) null, List.length_drop, List.length_append]
        simp only [List.length_singleton]
        omega
    | ask k names =>
      by_cases absent : k.id.isNull = true ∨ m.find? k = none
      · rwa [after, ask_of_absent names absent]
      · obtain ⟨null, some_⟩ := not_or.mp absent
        obtain ⟨own, found⟩ := Option.ne_none_iff_exists'.mp some_
        have fewer : (m.others k).length < m.rows.length :=
          List.length_filter_lt_length_iff_exists.mpr ⟨own, (mem_of_find? found).1,
            by simp [(mem_of_find? found).2]⟩
        rw [after, rows_ask (Bool.eq_false_iff.mpr null) found, List.length_append]
        exact Nat.le_trans fewer ih
    | forget k names =>
      have fewer : ((Move.forget k names).apply m).rows.length ≤ m.rows.length := by
        simp only [Move.apply, Marks.forget]
        split
        · exact List.length_filter_le _ _
        · exact Nat.le_refl _
        · exact Nat.le_of_eq (List.length_map _)
      exact Nat.le_trans fewer ih
    | clear => exact Nat.zero_le n

/-- Asking tells whether all of the names are recorded. -/
theorem Accounts.known {names : List Value}
    (h : Accounts limit past (after limit past).rows) (hkey : key.IsKey)
    (hnames : ∀ name ∈ names, name.isKey = true) :
    ∃ known, ((after limit past).isLoaded key (names.map .ok)).2 = .ok known ∧
      (known = true ↔ key.id.isNull = false ∧ (after limit past).Present key ∧
        ∀ name ∈ names, Recorded limit past key name) := by
  by_cases absent : key.id.isNull = true ∨ (after limit past).find? key = none
  · refine ⟨false, ?_, by simp [not_present_of_absent h absent]⟩
    rcases absent with null | none
    · simp [isLoaded, null]
    · simp [isLoaded, none]
  · obtain ⟨null, some_⟩ := not_or.mp absent
    obtain ⟨own, found⟩ := Option.ne_none_iff_exists'.mp some_
    obtain ⟨there, same⟩ := mem_of_find? found
    refine ⟨names.all fun n => own.names.any n.same, ?_, ?_⟩
    · simp [isLoaded, null, found, mapM_ok, Except.map]
    · have present : (after limit past).Present key := ⟨own, there, same⟩
      rw [List.all_eq_true, and_iff_right (Bool.eq_false_iff.mpr null), and_iff_right present]
      exact forall₂_congr fun name hname => h.names own there key hkey same name (hnames name hname)

/-- A row that a mark drops is one since which as many others as the limit says have been touched. -/
theorem Accounts.many_of_dropped {n : Nat} {k : RowKey} {names : List Value} (hk : k.IsKey)
    (h : Accounts (.int n) past (after (.int n) past).rows)
    (next : Accounts (.int n) (.mark k names :: past) (after (.int n) (.mark k names :: past)).rows)
    (hkey : key.IsKey) (there : (after (.int n) past).Present key)
    (gone : ¬ (after (.int n) (.mark k names :: past)).Present key) :
    n ≤ (Value.distinct (touchedSince (.int n) (.mark k names :: past) key)).length := by
  cases null : k.id.isNull with
  | true => exact absurd (by rwa [after, mark_of_null null]) gone
  | false =>
    obtain ⟨touch, -⟩ := h.entry hk null names
    let last := (after (.int n) past).entry k names
    let full := (after (.int n) past).others last.key ++ [last]
    let d := ((after (.int n) past).others last.key).length + 1 - n
    have rows : (after (.int n) (.mark k names :: past)).rows = full.drop d :=
      rows_mark (limit_after (.int n) past) null names
    obtain ⟨row, there, own⟩ : ∃ row ∈ full, row.key.same key = true := by
      obtain ⟨row, there, own⟩ := there
      cases apart : row.key.same last.key with
      | false => exact ⟨row, List.mem_append_left _ (mem_others.mpr ⟨there, apart⟩), own⟩
      | true =>
        exact ⟨last, List.mem_append_right _ (.head _),
          RowKey.same_trans touch.keyed.1 (RowKey.same_symm (h.keyed row there).1 apart) own⟩
    have front : row ∈ full.take d := by
      rw [← List.take_append_drop d full] at there
      refine (List.mem_append.mp there).resolve_right fun kept => gone ⟨row, rows ▸ kept, own⟩
    have kept : (full.drop d).length = n := by
      have some_ : 0 < d := by
        by_contra none
        simp [Nat.eq_zero_of_not_pos none] at front
      simp only [List.length_drop, full, List.length_append, List.length_singleton]
      omega
    have order : (full.take d ++ full.drop d).Pairwise (Later (.int n) (.mark k names :: past)) :=
      (List.take_append_drop d full).symm ▸ h.order_touched touch
    rw [rows] at next
    refine kept.symm.le.trans (length_le_distinct (fun r hr => (next.keyed r hr).1) next.once ?_)
    exact fun r hr => (List.pairwise_append.mp order).2.2 row front r hr key hkey own

theorem Accounts.present_ask {k : RowKey} {names : List Value}
    (h : Accounts limit past (after limit past).rows) (there : (after limit past).Present key) :
    (after limit (.ask k names :: past)).Present key := by
  by_cases absent : k.id.isNull = true ∨ (after limit past).find? k = none
  · rwa [after, ask_of_absent names absent]
  · obtain ⟨null, some_⟩ := not_or.mp absent
    obtain ⟨own, found⟩ := Option.ne_none_iff_exists'.mp some_
    obtain ⟨row, there, same⟩ := there
    rw [Present, after, rows_ask (Bool.eq_false_iff.mpr null) found]
    cases about : row.key.same k with
    | false => exact ⟨row, List.mem_append_left _ (mem_others.mpr ⟨there, about⟩), same⟩
    | true =>
      refine ⟨row, List.mem_append_right _ (List.mem_singleton.mpr ?_), same⟩
      exact Option.some.inj ((h.find_own there about).symm.trans found)

theorem Accounts.present_forget {k : RowKey} {names : Option (List Value)}
    (h : Accounts limit past (after limit past).rows) (hk : k.IsKey)
    (there : (after limit past).Present key)
    (gone : ¬ (after limit (.forget k names :: past)).Present key) :
    (Move.forget k names).Removes key := by
  obtain ⟨row, there, same⟩ := there
  cases names with
  | none =>
    cases about : row.key.same k with
    | false => exact absurd ⟨row, mem_others.mpr ⟨there, about⟩, same⟩ gone
    | true =>
      have keyed := (h.keyed row there).1
      exact RowKey.same_trans hk (RowKey.same_symm keyed about) same
  | some given =>
    refine absurd ?_ gone
    cases found : (after limit past).find? k with
    | none => exact ⟨row, by rwa [after, forget_of_absent found], same⟩
    | some own =>
      rw [Present, after, rows_forget found]
      refine ⟨_, List.mem_map_of_mem there, ?_⟩
      split <;> exact same

variable {τ : Type} {runner : Request → Deed τ (List Row)}

/-- The row of an object: its class and its identifier. -/
def IsRow (w : World τ) (o : Value) (key : RowKey) : Prop :=
  (w.modelOfValue? o).elim .null (fun m => Value.model m.id) = key.model ∧
    ∃ id, w.requireProperty o "id" = .ok id ∧ w.key id = .ok key.id

theorem isNull_of_key {w : World τ} {id : Value} (h : w.key id = .ok key.id) :
    key.id.isNull = id.isNull := by
  unfold Env.key at h
  split at h
  · obtain same := Except.ok.inj h
    cases id <;> rw [← same] <;> rfl
  · cases h

theorem IsRow.remarked {w : World τ} {o : Value} (h : IsRow w o key) (r : RegistryId) (m : Marks) :
    IsRow (w.remarked r m) o key := by
  obtain ⟨model, id, reads, hashes⟩ := h
  refine ⟨?_, id, reads, (w.key_remarked r m id).trans hashes⟩
  cases o <;> exact model

/-- Marking objects is marking the row of each in turn. -/
theorem glides_markObjects {n : Nat} {w : World τ} {r : RegistryId} (there : r < w.registries.size)
    (marks : (w.registryOf r).marks = after (.int n) past) {objects : List Value}
    {keys : List RowKey} (rows : List.Forall₂ (IsRow w) objects keys) (names : List Value) :
    ∃ w', (Deed.markObjects r objects (names.map .ok)).Glides runner w (.ok ()) w' ∧
      (w'.registryOf r).marks =
        after (.int n) ((keys.map fun key => Move.mark key names).reverse ++ past) := by
  induction objects generalizing keys w past with
  | nil =>
    cases rows
    exact ⟨w, .pure (), marks⟩
  | cons o objects ih =>
    obtain _ | @⟨_, key, _, keys, ⟨model, id, reads, hashes⟩, rows⟩ := rows
    have read : (Act.getsExcept fun w : World τ => w.requireProperty o "id").Glides runner w
        (.ok id) w := reads ▸ Act.Glides.getsExcept _
    have order : ((key :: keys).map fun key => Move.mark key names).reverse ++ past =
        (keys.map fun key => Move.mark key names).reverse ++ .mark key names :: past := by simp
    rw [order]
    cases null : id.isNull with
    | true =>
      have still := mark_of_null (m := after (.int n) past) ((isNull_of_key hashes).trans null) names
      have same : (w.registryOf r).marks = after (.int n) (.mark key names :: past) :=
        marks.trans still.symm
      obtain ⟨w', glides, later⟩ := ih there same rows
      refine ⟨w', ?_, later⟩
      refine Act.Glides.bind (a := ()) (Act.Glides.bind read ?_) glides
      rw [null]
      exact .pure ()
    | false =>
      have keyed : (Act.getsExcept fun w : World τ => do
          let model := (w.modelOfValue? o).elim .null fun m => Value.model m.id
          return (⟨model, ← w.key id⟩ : RowKey)).Glides runner w (.ok key) w := by
        have found := @Act.Glides.getsExcept _ _ runner w fun w : World τ => do
          let model := (w.modelOfValue? o).elim .null fun m => Value.model m.id
          return (⟨model, ← w.key id⟩ : RowKey)
        rw [hashes, model] at found
        exact found
      have changes := @Deed.glides_changeMarks _ runner _ w r fun m => m.mark key (names.map .ok)
      have limit : Marks.IsLimit (w.registryOf r).marks.limit := by
        rw [marks, limit_after]
        simp [IsLimit, Value.isBelow?]
      rw [mark_ok limit key names] at changes
      let next := w.remarked r ((w.registryOf r).marks.mark key (names.map .ok)).1
      have marked : (next.registryOf r).marks = after (.int n) (.mark key names :: past) := by
        rw [w.marks_remarked_self there, marks]
        rfl
      have there' : r < next.registries.size := by simpa [next, World.remarked] using there
      obtain ⟨w', glides, later⟩ := ih there' marked (rows.imp fun _ _ own => own.remarked r _)
      refine ⟨w', Act.Glides.bind (a := ()) (Act.Glides.bind read ?_) glides, later⟩
      rw [null]
      exact Act.Glides.bind keyed changes

/-- What marks come to that keep the rows touched last, at most `n` of them. -/
structure KeepsLast (n : Nat) (past : List Move) : Prop where
  bounded : (after (.int n) past).rows.length ≤ n
  answers : ∀ key : RowKey, key.IsKey → ∀ names : List Value, (∀ name ∈ names, name.isKey = true) →
    ∃ known, ((after (.int n) past).isLoaded key (names.map .ok)).2 = .ok known ∧
      (known = true ↔ key.id.isNull = false ∧ (after (.int n) past).Present key ∧
        ∀ name ∈ names, Recorded (.int n) past key name)
  dropped : ∀ move before, past = move :: before → ∀ key : RowKey, key.IsKey →
    (after (.int n) before).Present key → ¬ (after (.int n) past).Present key →
      move.Removes key ∨ (∃ k names, move = .mark k names) ∧
        n ≤ (Value.distinct (touchedSince (.int n) past key)).length
  own : ∀ k names before, past = .mark k names :: before → k.id.isNull = false →
    ((after (.int n) past).Present k ↔ n ≠ 0)
  objects : ∀ (τ : Type) (runner : Request → Deed τ (List Row)) (w : World τ) (r : RegistryId),
    r < w.registries.size → (w.registryOf r).marks = after (.int n) past →
      ∀ objects keys, List.Forall₂ (IsRow w) objects keys → ∀ names : List Value,
        ∃ w', (Deed.markObjects r objects (names.map .ok)).Glides runner w (.ok ()) w' ∧
          (w'.registryOf r).marks =
            after (.int n) ((keys.map fun key => Move.mark key names).reverse ++ past)

/-- Whatever is done to no marks, they keep the rows touched last. -/
theorem keeps_rows_touched_last (n : Nat) (past : List Move) (keyed : ∀ move ∈ past, move.Keyed) :
    KeepsLast n past where
  bounded := length_rows_le n past
  answers key hkey names hnames := (accounts keyed).known hkey hnames
  dropped move before split key hkey there gone := by
    subst split
    have h : Accounts (.int n) before (after (.int n) before).rows :=
      accounts fun move there => keyed move (.tail _ there)
    have own := keyed move (.head _)
    cases move with
    | mark k names =>
      exact .inr ⟨⟨k, names, rfl⟩, h.many_of_dropped own.1 (accounts keyed) hkey there gone⟩
    | ask k names => exact absurd (h.present_ask there) gone
    | forget k names => exact .inl (h.present_forget own.1 there gone)
    | clear => exact .inl trivial
  objects τ runner w r there marks objects keys rows names :=
    glides_markObjects there marks rows names
  own k names before split some_ := by
    subst split
    have h : Accounts (.int n) before (after (.int n) before).rows :=
      accounts fun move there => keyed move (.tail _ there)
    obtain ⟨touch, -⟩ := h.entry (keyed _ (.head _)).1 some_ names
    refine ⟨fun ⟨row, there, _⟩ none => ?_, fun some_' => ?_⟩
    · have fits := length_rows_le n (.mark k names :: before)
      have some_row := List.length_pos_of_mem there
      omega
    · refine ⟨(after (.int n) before).entry k names, ?_, (touch.twin k).trans touch.hk.self⟩
      rw [after, rows_mark (limit_after (.int n) before) some_,
        List.drop_append_of_le_length (by omega)]
      exact List.mem_append_right _ (.head _)

/-- Room for two rows: a third one takes the place of the second, since the first was asked about. -/
theorem keeps_last_asked :
    let row (i : Int) : RowKey := ⟨.model 0, .int i⟩
    let past : List Move := [.mark (row 3) [.text "posts"], .ask (row 1) [.text "tags"],
      .mark (row 2) [.text "posts"], .mark (row 1) [.text "posts"]]
    (∀ move ∈ past, move.Keyed) ∧ KeepsLast 2 past ∧
      (after (.int 2) past).rows.map (·.key.id) = [.int 1, .int 3] := by
  have keyed : ∀ i : Int, (⟨.model 0, .int i⟩ : RowKey).IsKey := fun i =>
    ⟨rfl, by simp [RowKey.same, Value.same, Value.toInt?]⟩
  intro row past
  have moves : ∀ move ∈ past, move.Keyed := by
    simp [past, row, Move.Keyed, keyed, Value.isKey]
  exact ⟨moves, keeps_rows_touched_last 2 past moves, rfl⟩

end Marks

end Relata
