import Mathlib.Data.List.Perm.Subperm
import Relata.Proofs.Schema.Settings

/-!
Classes that add no relation. A class with one base, on which no relation is declared and no static
table is written, has the static table of its base and finds the same declarations under the same
names, each with the class that declared it; so do the classes below it.
-/

namespace Relata

namespace Catalog

variable {c c' : Catalog} {ds : List Definition} {d : Definition} {m base heir : Model}

/-- Each class has the static table that is written on it or, if there is none, on the first class
behind it that has one. -/
structure Tabled (c : Catalog) (ds : List Definition) : Prop where
  settled : c.Settled ds
  written : ∀ i m, c.model? i = some m → m.ownStatic = ds[i]?.bind (·.static)
  static : ∀ i m, c.model? i = some m →
    m.static = (m.ownStatic.or ((m.ancestry.drop 1).findSome? c.ownStaticOf)).getD []

/-- A class whose only base is another one, and on which no relation is declared and no static table
is written. The field of deleted rows does not count as a base. -/
structure Heir (ds : List Definition) (base heir : Model) : Prop where
  only : heir.bases.filter (· ≠ .deletion) = [.model base.id]
  silent : ∃ d, ds[heir.id]? = some d ∧ d.relations = [] ∧ d.static = none

/-- The classes in line below a class, none of which adds a relation. -/
inductive Descends (c : Catalog) (ds : List Definition) (m : Model) : Model → Prop
  | self : Descends c ds m m
  | heir {base heir : Model} : Descends c ds m base → heir ∈ c.models → Heir ds base heir →
    Descends c ds m heir

/-- Classes that were there before keep their static tables. -/
theorem findSome?_ownStaticOf_push {l : List Ancestor}
    (known : ∀ j, .model j ∈ l → j < c.models.size) :
    l.findSome? (⟨c.models.push m⟩ : Catalog).ownStaticOf = l.findSome? c.ownStaticOf := by
  refine findSome?_congr fun a there => ?_
  cases a with
  | model i =>
    have old := Nat.ne_of_lt (known i there)
    simp [ownStaticOf, model?, Array.getElem?_push, old]
  | _ => rfl

namespace Tabled

theorem push (h : c.Tabled ds) (completes : c.Completes d m) :
    (⟨c.models.push m⟩ : Catalog).Tabled (ds ++ [d]) := by
  have size := h.settled.inherits.sized
  obtain ⟨rest, headed, -, below, -⟩ := h.settled.inherits.ancestry_of_completes completes
  refine ⟨h.settled.push completes, fun i own found => ?_, fun i own found => ?_⟩
  · rw [getElem?_concat]
    rcases model?_push.mp found with old | ⟨rfl, rfl⟩
    · obtain ⟨inside, -⟩ := Array.getElem?_eq_some_iff.mp old
      rw [if_neg (Nat.ne_of_lt (size ▸ inside))]
      exact h.written i own old
    · rw [if_pos size]
      exact completes.written
  · rcases model?_push.mp found with old | ⟨rfl, rfl⟩
    · obtain ⟨inside, -⟩ := Array.getElem?_eq_some_iff.mp old
      obtain ⟨rest, headed, earlier⟩ := h.settled.inherits.headed i own old
      rw [findSome?_ownStaticOf_push]
      · exact h.static i own old
      · intro j there
        rw [headed] at there
        exact Nat.lt_trans (earlier j there) inside
    · rw [findSome?_ownStaticOf_push, completes.written]
      · exact completes.static
      · intro j there
        rw [headed] at there
        exact below j there

theorem empty : empty.Tabled [] where
  settled := .empty
  written := fun _ _ found => nomatch found
  static := fun _ _ found => nomatch found

/-- Classes entered one after the other. -/
theorem foldlM (h : c.Tabled ds) {more : List Definition}
    (made : more.foldlM define c = .ok c') : c'.Tabled (ds ++ more) := by
  induction more generalizing c ds with
  | nil =>
    cases made
    rwa [List.append_nil]
  | cons d rest ih =>
    obtain ⟨between, entered, made⟩ := ok_of_bind made
    obtain ⟨m, rfl, completes⟩ := h.settled.inherits.numbered.define_eq_ok entered
    rw [List.append_cons]
    exact ih (h.push completes) made

end Tabled

/-- Behind a class with one base stands the order of that base, but for the field of deleted rows. -/
theorem Settled.behind_heir (h : c.Settled ds) (known : base ∈ c.models) (there : heir ∈ c.models)
    (only : heir.bases.filter (· ≠ .deletion) = [.model base.id]) :
    (heir.ancestry.drop 1).filter (· ≠ .deletion) =
      (c.orderOf (.model base.id)).filter (· ≠ .deletion) := by
  have found := h.inherits.numbered.mem there
  obtain ⟨rest, headed, -, distinct, orders, sources⟩ := h.exists_rest found
  have behind : heir.ancestry.drop 1 = rest := by
    simpa [orderOf, found] using congrArg (List.drop 1) headed
  have given (b : Ancestor) : b ∈ heir.bases ∧ b ≠ .deletion ↔ b = .model base.id := by
    have within : b ∈ heir.bases.filter (· ≠ .deletion) ↔ b ∈ [.model base.id] := by rw [only]
    simpa using within
  have mentioned := (given (.model base.id)).mpr rfl
  obtain ⟨_, first, -⟩ := h.exists_rest (h.inherits.numbered.mem known)
  have sub := (orders _ mentioned.1).filter (· ≠ .deletion)
  -- Nothing else stands there, and nothing twice.
  have all : ∀ x ∈ rest.filter (· ≠ .deletion), x ∈ (c.orderOf (.model base.id)).filter
      (· ≠ .deletion) := by
    intro x there
    obtain ⟨there, alive⟩ := List.mem_filter.mp there
    refine List.mem_filter.mpr ⟨?_, alive⟩
    have alive : x ≠ .deletion := by simpa using alive
    rcases sources x there with base' | ⟨b, base', own⟩
    · rw [(given x).mp ⟨base', alive⟩, first]
      exact .head _
    · by_cases last : b = .deletion
      · subst last
        exact absurd (List.mem_singleton.mp own) alive
      · exact (given b).mp ⟨base', last⟩ ▸ own
  have once : (rest.filter (· ≠ .deletion)).Nodup := distinct.filter _
  rw [behind]
  exact (sub.eq_of_length_le (List.Nodup.subperm once all).length_le).symm

theorem findSome?_filter_alive {α : Type} {f : Ancestor → Option α} (silent : f .deletion = none)
    (l : List Ancestor) : (l.filter (· ≠ .deletion)).findSome? f = l.findSome? f := by
  induction l with
  | nil => rfl
  | cons a rest ih =>
    by_cases dead : a = .deletion
    · subst dead
      simpa [findSome?_cons_eq_or, silent] using ih
    · rw [List.filter_cons_of_pos (by simpa using dead), findSome?_cons_eq_or, findSome?_cons_eq_or, ih]

/-- What is looked for behind such a class is looked for from its base on. -/
theorem Settled.findSome?_behind_heir (h : c.Settled ds) (known : base ∈ c.models)
    (there : heir ∈ c.models) (only : heir.bases.filter (· ≠ .deletion) = [.model base.id])
    {α : Type} {f : Ancestor → Option α} (silent : f .deletion = none) :
    (heir.ancestry.drop 1).findSome? f =
      (f (.model base.id)).or ((base.ancestry.drop 1).findSome? f) := by
  have found := h.inherits.numbered.mem known
  obtain ⟨rest, first, -⟩ := h.exists_rest found
  have order : base.ancestry = .model base.id :: rest := by simpa [orderOf, found] using first
  rw [← findSome?_filter_alive silent, h.behind_heir known there only, findSome?_filter_alive silent,
    first, findSome?_cons_eq_or, order]
  rfl

/-- A class that adds no relation has the tables of its base. -/
theorem Tabled.same_tables (h : c.Tabled ds) (known : base ∈ c.models) (there : heir ∈ c.models)
    (adds : Heir ds base heir) : heir.static = base.static ∧
      ∀ name, heir.declared.lookup name = base.declared.lookup name := by
  obtain ⟨d, own, undeclared, unlisted⟩ := adds.silent
  have inherits := h.settled.inherits
  have found := inherits.numbered.mem there
  have found' := inherits.numbered.mem known
  refine ⟨?_, fun name => ?_⟩
  · have none_ : heir.ownStatic = none := by rw [h.written _ _ found, own]; exact unlisted
    rw [h.static _ _ found, h.static _ _ found', none_,
      h.settled.findSome?_behind_heir known there adds.only rfl]
    simp [ownStaticOf, found']
  · have unwritten : written? ds (.model heir.id) name = none := by
      simp [written?, own, undeclared]
    have entry : c.entryOf (.model base.id) name = base.declared.lookup name := by
      simp [entryOf, tableOf, found']
    rw [inherits.entries _ _ found, unwritten, Option.none_or,
      h.settled.findSome?_behind_heir known there adds.only rfl, entry,
      inherits.entries _ _ found', Option.or_assoc, Option.or_self]

/-- So have all classes in line below. -/
theorem Tabled.descends (h : c.Tabled ds) (known : m ∈ c.models) (below : c.Descends ds m heir) :
    heir ∈ c.models ∧ heir.static = m.static ∧
      ∀ name, heir.declared.lookup name = m.declared.lookup name := by
  induction below with
  | self => exact ⟨known, rfl, fun _ => rfl⟩
  | heir _ there adds ih =>
    obtain ⟨base, static, declared⟩ := ih
    obtain ⟨static', declared'⟩ := h.same_tables base there adds
    exact ⟨there, static'.trans static, fun name => (declared' name).trans (declared name)⟩

end Catalog

end Relata
