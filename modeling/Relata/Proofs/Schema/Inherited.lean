import Relata.Proofs.Schema.Linearized
import Relata.Proofs.Schema.Listed

/-!
The relations that a class inherits. The table of a class takes in the tables of its ancestors, the
farthest first, and each of them holds already what that ancestor inherits; attribute lookup goes
along the ancestry and stops at the first class that declares the name itself.
-/

namespace Relata

namespace Catalog

section Put

variable {α : Type}

theorem lookup_cons_of_ne {name first : String} (other : name ≠ first) (a : α)
    (rest : List (String × α)) : ((first, a) :: rest).lookup name = rest.lookup name := by
  rw [List.lookup_cons, beq_eq_false_iff_ne.mpr other]

theorem lookup_eq_none_of_forall {name : String} {entries : List (String × α)}
    (h : ∀ e ∈ entries, e.1 ≠ name) : entries.lookup name = none :=
  List.lookup_eq_none_iff.mpr fun e there => bne_iff_ne.mpr (h e there).symm

theorem lookup_replace_self {entries : List (String × α)} {key : String} (a : α)
    (there : ∃ e ∈ entries, e.1 = key) :
    (entries.map fun e => if e.1 == key then (key, a) else e).lookup key = some a := by
  induction entries with
  | nil => simp at there
  | cons e rest ih =>
    obtain ⟨first, b⟩ := e
    by_cases head : first = key
    · simp [head]
    · have later : ∃ e ∈ rest, e.1 = key := by simpa [head] using there
      simpa [head, lookup_cons_of_ne (Ne.symm head)] using ih later

theorem lookup_replace_other {key name : String} (other : name ≠ key)
    (entries : List (String × α)) (a : α) :
    (entries.map fun e => if e.1 == key then (key, a) else e).lookup name =
      entries.lookup name := by
  induction entries with
  | nil => rfl
  | cons e rest ih =>
    obtain ⟨first, b⟩ := e
    rw [List.map_cons]
    by_cases head : first = key
    · simpa [head, lookup_cons_of_ne other] using ih
    · by_cases same : name = first
      · simp [head, same]
      · simpa [head, lookup_cons_of_ne same] using ih

/-- What is put in is found under its name, and what is under other names stays. -/
theorem lookup_put (entries : List (String × α)) (key name : String) (a : α) :
    (put entries key a).lookup name = if name = key then some a else entries.lookup name := by
  unfold put
  by_cases same : name = key
  · subst same
    split
    · next there => simpa using lookup_replace_self a (by simpa using there)
    · next missing =>
      have none_ : entries.lookup name = none := lookup_eq_none_of_forall fun e there same =>
        missing (List.any_eq_true.mpr ⟨e, there, beq_iff_eq.mpr same⟩)
      simp [List.lookup_append, none_]
  · split
    · simpa [same] using lookup_replace_other same entries a
    · simp [List.lookup_append, lookup_cons_of_ne same]

theorem keys_put (entries : List (String × α)) (key : String) (a : α) :
    (put entries key a).map (·.1) =
      if entries.any (·.1 == key) then entries.map (·.1) else entries.map (·.1) ++ [key] := by
  unfold put
  split
  · rw [List.map_map]
    refine List.map_congr_left fun e _ => ?_
    by_cases head : e.1 = key <;> simp [head]
  · simp

theorem nodup_keys_put {entries : List (String × α)} (distinct : (entries.map (·.1)).Nodup)
    (key : String) (a : α) : ((put entries key a).map (·.1)).Nodup := by
  rw [keys_put]
  split
  · exact distinct
  · next missing =>
    refine List.nodup_append.mpr ⟨distinct, by simp, fun k there l last same => ?_⟩
    obtain ⟨e, own, rfl⟩ := List.mem_map.mp there
    obtain rfl := List.mem_singleton.mp last
    exact missing (List.any_eq_true.mpr ⟨e, own, beq_iff_eq.mpr same⟩)

/-- Entries put in one after the other: of those with one name the last one stays. -/
theorem lookup_foldl_put (pairs entries : List (String × α)) (name : String) :
    (pairs.foldl (fun entries p => put entries p.1 p.2) entries).lookup name =
      (pairs.reverse.lookup name).or (entries.lookup name) := by
  induction pairs generalizing entries with
  | nil => rfl
  | cons p rest ih =>
    obtain ⟨first, a⟩ := p
    rw [List.foldl_cons, ih, lookup_put, List.reverse_cons, List.lookup_append, Option.or_assoc]
    by_cases same : name = first
    · simp [same]
    · simp [same, lookup_cons_of_ne same]

theorem nodup_keys_foldl_put (pairs : List (String × α)) {entries : List (String × α)}
    (distinct : (entries.map (·.1)).Nodup) :
    ((pairs.foldl (fun entries p => put entries p.1 p.2) entries).map (·.1)).Nodup := by
  induction pairs generalizing entries with
  | nil => exact distinct
  | cons p rest ih => exact ih (nodup_keys_put distinct p.1 p.2)

/-- Where no name stands twice, the order does not matter. -/
theorem lookup_reverse {entries : List (String × α)} (distinct : (entries.map (·.1)).Nodup)
    (name : String) : entries.reverse.lookup name = entries.lookup name := by
  induction entries with
  | nil => rfl
  | cons e rest ih =>
    obtain ⟨first, a⟩ := e
    obtain ⟨missing, distinct⟩ := List.nodup_cons.mp distinct
    rw [List.reverse_cons, List.lookup_append, ih distinct]
    by_cases same : name = first
    · have none_ : rest.lookup name = none := lookup_eq_none_of_forall fun e there again =>
        missing (List.mem_map.mpr ⟨e, there, again.trans same⟩)
      simp [none_, ← same]
    · simp [lookup_cons_of_ne same]

theorem lookup_map_snd {β : Type} (f : α → β) (entries : List (String × α)) (name : String) :
    (entries.map fun e => (e.1, f e.2)).lookup name = (entries.lookup name).map f := by
  induction entries with
  | nil => rfl
  | cons e rest ih =>
    obtain ⟨first, a⟩ := e
    by_cases same : name = first
    · simp [same]
    · simpa [lookup_cons_of_ne same] using ih

theorem findSome?_cons_eq_or {β γ : Type} (f : β → Option γ) (b : β) (rest : List β) :
    (b :: rest).findSome? f = (f b).or (rest.findSome? f) := by
  rw [List.findSome?_cons]
  cases f b <;> rfl

theorem findSome?_congr {β γ : Type} {f g : β → Option γ} {l : List β}
    (same : ∀ b ∈ l, f b = g b) : l.findSome? f = l.findSome? g := by
  induction l with
  | nil => rfl
  | cons b rest ih =>
    rw [findSome?_cons_eq_or, findSome?_cons_eq_or, same b (.head _),
      ih fun b there => same b (.tail _ there)]

theorem lookup_flatMap {β : Type} (f : β → List (String × α)) (l : List β) (name : String) :
    (l.flatMap f).lookup name = l.findSome? fun b => (f b).lookup name := by
  induction l with
  | nil => rfl
  | cons b rest ih => rw [List.flatMap_cons, List.lookup_append, ih, findSome?_cons_eq_or]

end Put

/-- The table of a class. -/
def tableOf (c : Catalog) : Ancestor → List (String × ModelId × Declaration)
  | .model id => ((c.model? id).map (·.declared)).getD []
  | _ => []

/-- The entry for a name in the table of a class. -/
def entryOf (c : Catalog) (a : Ancestor) (name : String) : Option (ModelId × Declaration) :=
  (c.tableOf a).lookup name

/-- The declaration of that name written on a class itself, the last one if there are several. -/
def written? (ds : List Definition) (a : Ancestor) (name : String) :
    Option (ModelId × Declaration) :=
  match a with
  | .model id => (ds[id]?.bind (·.relations.reverse.lookup name)).map (id, ·)
  | _ => none

/-- What attribute lookup finds: the declaration written on the first class of the ancestry that has
one. -/
def attribute? (c : Catalog) (ds : List Definition) (a : Ancestor) (name : String) :
    Option (ModelId × Declaration) :=
  (c.orderOf a).findSome? (written? ds · name)

theorem eq_model_of_written? {ds : List Definition} {a : Ancestor} {name : String} {id : ModelId}
    {d : Declaration} (h : written? ds a name = some (id, d)) : a = .model id := by
  cases a with
  | model own =>
    obtain ⟨_, -, same⟩ := Option.map_eq_some_iff.mp h
    exact congrArg Ancestor.model (congrArg Prod.fst same)
  | _ => cases h

variable {c c' : Catalog} {ds : List Definition} {d : Definition} {m : Model} {name : String}

/-- The table of a class is filled by the tables of its ancestors, farthest first, and by what is
written on it. -/
theorem inheritDeclared_eq (self : ModelId) (own : List (String × Declaration))
    (ancestors : List Ancestor) :
    c.inheritDeclared self own ancestors =
      (ancestors.reverse.flatMap c.tableOf ++ own.map fun p => (p.1, self, p.2)).foldl
        (fun entries p => put entries p.1 p.2) [] := by
  have taken {f : List (String × ModelId × Declaration) → Ancestor →
      List (String × ModelId × Declaration)}
      (filled : ∀ entries a, f entries a =
        (c.tableOf a).foldl (fun entries p => put entries p.1 p.2) entries) :
      ∀ (l : List Ancestor) entries, l.foldl f entries =
        (l.flatMap c.tableOf).foldl (fun entries p => put entries p.1 p.2) entries := by
    intro l
    induction l with
    | nil => exact fun _ => rfl
    | cons a rest ih =>
      intro entries
      rw [List.foldl_cons, ih, List.flatMap_cons, List.foldl_append, filled]
  rw [inheritDeclared, taken fun entries a => by cases a <;> rfl, List.foldl_append, List.foldl_map]

theorem nodup_keys_inheritDeclared (self : ModelId) (own : List (String × Declaration))
    (ancestors : List Ancestor) :
    ((c.inheritDeclared self own ancestors).map (·.1)).Nodup := by
  rw [inheritDeclared_eq]
  exact nodup_keys_foldl_put _ List.nodup_nil

/-- The entries of the table of a class: what is written on it, and of its ancestors' tables the
entry in the first that has one. -/
theorem lookup_inheritDeclared (distinct : ∀ a, ((c.tableOf a).map (·.1)).Nodup) (self : ModelId)
    (own : List (String × Declaration)) (ancestors : List Ancestor) (name : String) :
    (c.inheritDeclared self own ancestors).lookup name =
      ((own.reverse.lookup name).map (self, ·)).or (ancestors.findSome? (c.entryOf · name)) := by
  have tables (a : Ancestor) : (c.tableOf a).reverse.lookup name = c.entryOf a name :=
    lookup_reverse (distinct a) name
  rw [inheritDeclared_eq, lookup_foldl_put, List.reverse_append, List.lookup_append,
    ← List.map_reverse, lookup_map_snd, List.reverse_flatMap, List.reverse_reverse, lookup_flatMap]
  simp [tables]

/-- What the classes of a catalog know of each other: a class comes first in the order of its
ancestry and after all others by its number, the order of each ancestor is part of that order, and
its table is made of what is written on it and of the tables of its ancestors. -/
structure Inherits (c : Catalog) (ds : List Definition) : Prop where
  sized : c.models.size = ds.length
  numbered : c.Numbered
  headed : ∀ i m, c.model? i = some m → ∃ rest, m.ancestry = .model i :: rest ∧
    ∀ j, .model j ∈ rest → j < i
  nested : ∀ a, ∀ b ∈ c.orderOf a, (c.orderOf b).Sublist (c.orderOf a)
  ordered : ∀ a, (c.orderOf a).Nodup
  distinct : ∀ a, ((c.tableOf a).map (·.1)).Nodup
  entries : ∀ i m, c.model? i = some m → ∀ name, m.declared.lookup name =
    (written? ds (.model i) name).or ((m.ancestry.drop 1).findSome? (c.entryOf · name))

namespace Inherits

theorem lt_of_mem (h : c.Inherits ds) {a : Ancestor} {j : ModelId}
    (there : .model j ∈ c.orderOf a) :
    j < c.models.size ∧ ∀ i, a = .model i → j ≤ i := by
  cases a with
  | model i =>
    cases found : c.model? i with
    | none => simp [orderOf, found] at there
    | some m =>
      obtain ⟨inside, -⟩ := Array.getElem?_eq_some_iff.mp found
      obtain ⟨rest, headed, below⟩ := h.headed i m found
      simp only [orderOf, found, Option.map_some, Option.getD_some, headed, List.mem_cons,
        Ancestor.model.injEq] at there
      have le : j ≤ i := there.elim Nat.le_of_eq fun later => Nat.le_of_lt (below j later)
      exact ⟨Nat.lt_of_le_of_lt le inside, fun k same => Ancestor.model.inj same ▸ le⟩
  | _ => simp [orderOf] at there

/-- The ancestors of a class that is entered: classes that were there before, each with its own
ancestors in the order in which it has them. -/
theorem ancestry_of_completes (h : c.Inherits ds) (completes : c.Completes d m) :
    ∃ rest, m.ancestry = .model c.models.size :: rest ∧ rest.Nodup ∧
      (∀ j, .model j ∈ rest → j < c.models.size) ∧ ∀ a ∈ rest, (c.orderOf a).Sublist rest := by
  obtain ⟨rest, headed, merges⟩ := Linearization.of_eq_some completes.ordered
  have sources : ∀ a ∈ rest, a ∈ m.bases ∨ ∃ base ∈ m.bases, a ∈ c.orderOf base := by
    intro a there
    obtain ⟨l, listed, own⟩ := merges.mem there
    rcases List.mem_append.mp listed with order | last
    · obtain ⟨base, given, rfl⟩ := List.mem_map.mp order
      exact .inr ⟨base, given, own⟩
    · exact .inl (List.mem_singleton.mp last ▸ own)
  have kept : ∀ base ∈ m.bases, (c.orderOf base).Sublist rest := fun base given =>
    merges.sublist (List.mem_append_left _ (List.mem_map_of_mem given))
  refine ⟨rest, completes.numbered ▸ headed, merges.nodup, fun j there => ?_, fun a there => ?_⟩
  · rcases sources _ there with given | ⟨base, -, own⟩
    · rcases completes.early _ given with absurd | absurd | ⟨k, lt, same⟩
      · cases absurd
      · cases absurd
      · exact Ancestor.model.inj same ▸ lt
    · exact (h.lt_of_mem own).1
  · rcases sources a there with given | ⟨base, given, own⟩
    · exact kept a given
    · exact (h.nested base a own).trans (kept base given)

end Inherits

theorem orderOf_push (a : Ancestor) : (⟨c.models.push m⟩ : Catalog).orderOf a =
    if a = .model c.models.size then m.ancestry else c.orderOf a := by
  cases a with
  | model i =>
    by_cases last : i = c.models.size <;> simp [orderOf, model?, Array.getElem?_push, last]
  | _ => rfl

theorem tableOf_push (a : Ancestor) : (⟨c.models.push m⟩ : Catalog).tableOf a =
    if a = .model c.models.size then m.declared else c.tableOf a := by
  cases a with
  | model i =>
    by_cases last : i = c.models.size <;> simp [tableOf, model?, Array.getElem?_push, last]
  | _ => rfl

/-- The classes that were there before keep their entries. -/
theorem findSome?_entryOf_push {l : List Ancestor}
    (known : ∀ j, .model j ∈ l → j < c.models.size) (name : String) :
    l.findSome? ((⟨c.models.push m⟩ : Catalog).entryOf · name) =
      l.findSome? (c.entryOf · name) := by
  refine findSome?_congr fun a there => ?_
  have old : a ≠ .model c.models.size := by
    rintro rfl
    exact Nat.lt_irrefl _ (known _ there)
  rw [entryOf, entryOf, tableOf_push, if_neg old]

theorem getElem?_concat {α : Type} (l : List α) (a : α) (i : Nat) :
    (l ++ [a])[i]? = if i = l.length then some a else l[i]? := by
  split
  · next last => simp [last]
  · next other =>
    rcases Nat.lt_or_gt_of_ne other with lt | gt
    · rw [List.getElem?_append_left lt]
    · have beyond : l.length + [a].length ≤ i := gt
      rw [List.getElem?_eq_none (by simpa using beyond), List.getElem?_eq_none (Nat.le_of_lt gt)]

theorem written?_append (d : Definition) (i : ModelId) (name : String) :
    written? (ds ++ [d]) (.model i) name = if i = ds.length then
      (d.relations.reverse.lookup name).map (i, ·) else written? ds (.model i) name := by
  rw [written?, written?, getElem?_concat]
  split <;> rfl

theorem Inherits.push (h : c.Inherits ds) (completes : c.Completes d m) :
    (⟨c.models.push m⟩ : Catalog).Inherits (ds ++ [d]) := by
  obtain ⟨rest, headed, distinct, below, nested⟩ := h.ancestry_of_completes completes
  have absent : ∀ a, .model c.models.size ∉ c.orderOf a := fun a there =>
    Nat.lt_irrefl _ (h.lt_of_mem there).1
  have new : .model c.models.size ∉ rest := fun there => Nat.lt_irrefl _ (below _ there)
  refine ⟨?_, h.numbered.push completes.numbered, fun i own found => ?_, fun a b there => ?_,
    fun a => ?_, fun a => ?_, fun i own found name => ?_⟩
  · simp [h.sized]
  · rcases model?_push.mp found with old | ⟨rfl, rfl⟩
    · exact h.headed i own old
    · exact ⟨rest, headed, below⟩
  · rw [orderOf_push] at there ⊢
    rw [orderOf_push]
    by_cases last : a = .model c.models.size
    · rw [if_pos last, headed] at there
      rw [if_pos last, headed]
      rcases List.mem_cons.mp there with rfl | there
      · simp
      · have old : b ≠ .model c.models.size := fun same => new (same ▸ there)
        rw [if_neg old]
        exact (nested b there).cons _
    · rw [if_neg last] at there
      have old : b ≠ .model c.models.size := fun same => absent a (same ▸ there)
      rw [if_neg last, if_neg old]
      exact h.nested a b there
  · rw [orderOf_push]
    split
    · exact headed ▸ List.nodup_cons.mpr ⟨new, distinct⟩
    · exact h.ordered a
  · rw [tableOf_push]
    split
    · exact completes.declared ▸ nodup_keys_inheritDeclared _ _ _
    · exact h.distinct a
  · rw [written?_append]
    rcases model?_push.mp found with old | ⟨rfl, rfl⟩
    · obtain ⟨inside, -⟩ := Array.getElem?_eq_some_iff.mp old
      obtain ⟨rest, own_headed, earlier⟩ := h.headed i own old
      have known : ∀ j, .model j ∈ own.ancestry.drop 1 → j < c.models.size := fun j there =>
        Nat.lt_trans (earlier j (by simpa [own_headed] using there)) inside
      rw [if_neg (Nat.ne_of_lt (h.sized ▸ inside)), findSome?_entryOf_push known]
      exact h.entries i own old name
    · have known : ∀ j, .model j ∈ own.ancestry.drop 1 → j < c.models.size := fun j there =>
        below j (by simpa [headed] using there)
      rw [if_pos h.sized, findSome?_entryOf_push known, completes.declared, completes.numbered]
      exact lookup_inheritDeclared h.distinct _ _ _ _

theorem inherits_empty : empty.Inherits [] where
  sized := rfl
  numbered := fun _ _ found => nomatch found
  headed := fun _ _ found => nomatch found
  nested := fun a b there => by
    cases a with
    | model => cases there
    | _ =>
      obtain rfl := List.mem_singleton.mp there
      exact .refl _
  ordered := fun a => by cases a <;> simp [orderOf, model?, empty]
  distinct := fun a => by cases a <;> simp [tableOf, model?, empty]
  entries := fun _ _ found => nomatch found

/-- Classes entered one after the other. -/
theorem Inherits.foldlM (h : c.Inherits ds) {more : List Definition}
    (made : more.foldlM define c = .ok c') : c'.Inherits (ds ++ more) := by
  induction more generalizing c ds with
  | nil =>
    cases made
    rwa [List.append_nil]
  | cons d rest ih =>
    obtain ⟨between, entered, made⟩ := ok_of_bind made
    obtain ⟨m, rfl, completes⟩ := h.numbered.define_eq_ok entered
    rw [List.append_cons]
    exact ih (h.push completes) made

/-- A class that an ancestor's order has is found there first, if it is found first in the order of
the class. -/
theorem find?_of_sublist {α : Type} {part whole : List α} {p : α → Bool} {a : α}
    (sub : part.Sublist whole) (distinct : whole.Nodup) (first : whole.find? p = some a)
    (there : a ∈ part) : part.find? p = some a := by
  induction sub with
  | slnil => cases there
  | @cons part whole b sub ih =>
    obtain ⟨absent, distinct⟩ := List.nodup_cons.mp distinct
    have other : b ≠ a := by
      rintro rfl
      exact absent (sub.subset there)
    by_cases chosen : p b
    · rw [List.find?_cons_of_pos chosen] at first
      exact absurd (Option.some.inj first) other
    · rw [List.find?_cons_of_neg chosen] at first
      exact ih distinct first there
  | @cons_cons part whole b sub ih =>
    obtain ⟨absent, distinct⟩ := List.nodup_cons.mp distinct
    by_cases chosen : p b
    · rw [List.find?_cons_of_pos chosen] at first ⊢
      exact first
    · rw [List.find?_cons_of_neg chosen] at first ⊢
      have other : a ≠ b := by
        rintro rfl
        exact chosen (List.find?_some first)
      exact ih distinct first ((List.mem_cons.mp there).resolve_left other)

theorem findSome?_eq_bind_find? {α β : Type} (f : α → Option β) (l : List α) :
    l.findSome? f = (l.find? fun a => (f a).isSome).bind f := by
  induction l with
  | nil => rfl
  | cons a rest ih =>
    rw [findSome?_cons_eq_or, List.find?_cons]
    cases value : f a with
    | none => simpa using ih
    | some b => simp [value]

/-- The class from which a class has its entry for a name that is not written on itself: the first
behind it in whose table the name is. -/
def giver? (c : Catalog) (a : Ancestor) (name : String) : Option Ancestor :=
  ((c.orderOf a).drop 1).find? fun b => (c.entryOf b name).isSome

theorem exists_model_of_giver? {a b : Ancestor} (given : c.giver? a name = some b) :
    ∃ i, b = .model i := by
  have entry : (c.entryOf b name).isSome := by simpa using List.find?_some given
  cases b with
  | model i => exact ⟨i, rfl⟩
  | _ => cases entry

namespace Inherits

variable {a b : Ancestor} {v : ModelId × Declaration}

/-- A class that is not there has no ancestry; any other one comes first in its own. -/
theorem orderOf_eq (h : c.Inherits ds) (a : Ancestor) :
    (c.orderOf a = [] ∧ c.tableOf a = [] ∧ ∀ name, written? ds a name = none) ∨
      c.orderOf a = a :: (c.orderOf a).drop 1 := by
  cases a with
  | model i =>
    cases found : c.model? i with
    | none =>
      have beyond : ds[i]? = none := by
        rw [List.getElem?_eq_none_iff, ← h.sized]
        exact Array.getElem?_eq_none_iff.mp found
      exact .inl (by simp [orderOf, tableOf, written?, found, beyond])
    | some m =>
      obtain ⟨rest, headed, -⟩ := h.headed i m found
      exact .inr (by simp [orderOf, found, headed])
  | _ => exact .inr rfl

/-- What holds of a class if it holds of the classes behind it holds of all. -/
theorem along (h : c.Inherits ds) {P : Ancestor → Prop}
    (step : ∀ a, (∀ b ∈ (c.orderOf a).drop 1, P b) → P a) (a : Ancestor) : P a := by
  have alone : P .deletion ∧ P .root := ⟨step _ (by simp [orderOf]), step _ (by simp [orderOf])⟩
  cases a with
  | model i =>
    induction i using Nat.strongRecOn with
    | _ i ih =>
      refine step _ fun b behind => ?_
      cases b with
      | model j =>
        cases found : c.model? i with
        | none => simp [orderOf, found] at behind
        | some m =>
          obtain ⟨rest, headed, below⟩ := h.headed i m found
          exact ih j (below j (by simpa [orderOf, found, headed] using behind))
      | deletion => exact alone.1
      | root => exact alone.2
  | deletion => exact alone.1
  | root => exact alone.2

theorem entryOf_eq (h : c.Inherits ds) (a : Ancestor) (name : String) :
    c.entryOf a name = (written? ds a name).or ((c.giver? a name).bind (c.entryOf · name)) := by
  rw [giver?, ← findSome?_eq_bind_find?]
  cases a with
  | model i =>
    cases found : c.model? i with
    | none =>
      obtain ⟨empty, table, unwritten⟩ | headed := h.orderOf_eq (.model i)
      · simp [entryOf, empty, table, unwritten]
      · simp [orderOf, found] at headed
    | some m => simpa [entryOf, tableOf, orderOf, found] using h.entries i m found name
  | _ => rfl

theorem attribute?_eq (h : c.Inherits ds) (a : Ancestor) (name : String) :
    c.attribute? ds a name =
      (written? ds a name).or (((c.orderOf a).drop 1).findSome? (written? ds · name)) := by
  rw [attribute?]
  obtain ⟨empty, -, unwritten⟩ | headed := h.orderOf_eq a
  · simp [empty, unwritten]
  · rw [headed]
    exact findSome?_cons_eq_or _ _ _

/-- Whatever stands in a table is written on a class of the ancestry. -/
theorem written_of_entryOf (h : c.Inherits ds) (a : Ancestor)
    (entry : c.entryOf a name = some v) :
    .model v.1 ∈ c.orderOf a ∧ written? ds (.model v.1) name = some v := by
  induction a using h.along with
  | step a ih =>
    rw [h.entryOf_eq, Option.or_eq_some_iff] at entry
    rcases entry with own | ⟨-, given⟩
    · obtain rfl := eq_model_of_written? own
      refine ⟨?_, own⟩
      obtain ⟨-, -, unwritten⟩ | headed := h.orderOf_eq (.model v.1)
      · exact absurd (own.symm.trans (unwritten name)) (Option.some_ne_none _)
      · exact headed ▸ .head _
    · obtain ⟨b, found, entry⟩ := Option.bind_eq_some_iff.mp given
      have behind := List.mem_of_find?_eq_some found
      obtain ⟨there, written⟩ := ih b behind entry
      exact ⟨(h.nested a b (List.mem_of_mem_drop behind)).subset there, written⟩

/-- A name that is written on a class of the ancestry stands in the table. -/
theorem entryOf_of_written (h : c.Inherits ds) (there : b ∈ c.orderOf a)
    (written : (written? ds b name).isSome) : (c.entryOf a name).isSome := by
  have own {a : Ancestor} (written : (written? ds a name).isSome) : (c.entryOf a name).isSome := by
    rw [h.entryOf_eq]
    simp [written]
  obtain ⟨empty, -, -⟩ | headed := h.orderOf_eq a
  · simp [empty] at there
  · rw [headed] at there
    rcases List.mem_cons.mp there with rfl | behind
    · exact own written
    · rw [h.entryOf_eq, giver?, ← findSome?_eq_bind_find?]
      have given : (((c.orderOf a).drop 1).findSome? (c.entryOf · name)).isSome :=
        List.findSome?_isSome_iff.mpr ⟨b, behind, own written⟩
      rw [Option.isSome_or, given, Bool.or_true]

theorem attribute?_eq_some (h : c.attribute? ds a name = some v) :
    Ancestor.model v.1 ∈ c.orderOf a ∧ written? ds (.model v.1) name = some v := by
  obtain ⟨b, there, written⟩ := List.exists_of_findSome?_eq_some h
  obtain rfl := eq_model_of_written? written
  exact ⟨there, written⟩

/-- Attribute lookup finds the same on an ancestor that knows the class that it ends at. -/
theorem attribute?_of_mem (h : c.Inherits ds) (there : b ∈ c.orderOf a)
    (found : c.attribute? ds a name = some v) (known : .model v.1 ∈ c.orderOf b) :
    c.attribute? ds b name = some v := by
  rw [attribute?, findSome?_eq_bind_find?, Option.bind_eq_some_iff] at found ⊢
  obtain ⟨first, found, written⟩ := found
  obtain rfl := eq_model_of_written? written
  exact ⟨_, find?_of_sublist (h.nested a b there) (h.ordered a) found known, written⟩

/-- The tables of a class and of its ancestors follow attribute lookup if and only if each of them
that has a name from another one finds it written on a class that this one knows. -/
theorem entryOf_eq_attribute?_iff (h : c.Inherits ds) (a : Ancestor) (name : String) :
    (∀ x ∈ c.orderOf a, c.entryOf x name = c.attribute? ds x name) ↔
      ∀ x ∈ c.orderOf a, written? ds x name = none → ∀ b v, c.giver? x name = some b →
        c.attribute? ds x name = some v → .model v.1 ∈ c.orderOf b := by
  have within {x b : Ancestor} (there : x ∈ c.orderOf a) (given : c.giver? x name = some b) :
      b ∈ c.orderOf x ∧ b ∈ c.orderOf a := by
    have behind := List.mem_of_mem_drop (List.mem_of_find?_eq_some given)
    exact ⟨behind, (h.nested a x there).subset behind⟩
  constructor
  · intro follows x there unwritten b v given found
    have entry : c.entryOf b name = some v := by
      rw [← found, ← follows x there, h.entryOf_eq x, unwritten, given]
      rfl
    rw [follows b (within there given).2] at entry
    exact (attribute?_eq_some entry).1
  · intro known x
    induction x using h.along with
    | step x ih =>
      intro there
      cases unwritten : written? ds x name with
      | some v => rw [h.entryOf_eq, h.attribute?_eq, unwritten, Option.some_or, Option.some_or]
      | none =>
        cases given : c.giver? x name with
        | none =>
          have entry : c.entryOf x name = none := by rw [h.entryOf_eq, unwritten, given]; rfl
          cases found : c.attribute? ds x name with
          | none => exact entry
          | some v =>
            obtain ⟨declares, written⟩ := attribute?_eq_some found
            have some_ := h.entryOf_of_written declares (Option.isSome_of_eq_some written)
            simp [entry] at some_
        | some b =>
          obtain ⟨behind, own⟩ := within there given
          have entry : c.entryOf x name = c.entryOf b name := by
            rw [h.entryOf_eq x, unwritten, given]
            rfl
          rw [entry, ih b (List.mem_of_find?_eq_some given) own]
          cases found : c.attribute? ds x name with
          | some v =>
            exact h.attribute?_of_mem behind found (known x there unwritten b v given found)
          | none =>
            -- what the giver has is written on a class that the first one knows as well
            cases other : c.attribute? ds b name with
            | none => rfl
            | some v =>
              obtain ⟨declares, written⟩ := attribute?_eq_some other
              have missed := List.findSome?_eq_none_iff.mp found _
                ((h.nested x b behind).subset declares)
              rw [missed] at written
              cases written

/-- Where of two classes of the ancestry one knows the other, the table follows attribute lookup. -/
theorem entryOf_eq_attribute?_of_line (h : c.Inherits ds) (a : Ancestor) (name : String)
    (line : ∀ i j, .model i ∈ c.orderOf a → .model j ∈ c.orderOf a →
      .model i ∈ c.orderOf (.model j) ∨ .model j ∈ c.orderOf (.model i)) :
    c.entryOf a name = c.attribute? ds a name := by
  obtain ⟨empty, table, -⟩ | headed := h.orderOf_eq a
  · rw [entryOf, attribute?, empty, table]
    rfl
  refine (h.entryOf_eq_attribute?_iff a name).mpr (fun x there unwritten b v given found => ?_) a
    (headed ▸ .head _)
  obtain ⟨declares, written⟩ := attribute?_eq_some found
  have behind := List.mem_of_find?_eq_some given
  obtain ⟨j, rfl⟩ := exists_model_of_giver? given
  have ordered := h.nested a x there
  rcases line v.1 j (ordered.subset declares) (ordered.subset (List.mem_of_mem_drop behind)) with
    known | under
  · exact known
  -- the class that declares the name comes first among those behind, so it is the giver
  obtain ⟨empty, -, -⟩ | first := h.orderOf_eq (.model v.1)
  · simp [empty] at under
  obtain ⟨empty, -, -⟩ | whole := h.orderOf_eq x
  · simp [empty] at declares
  have sub : (c.orderOf (.model v.1)).Sublist ((c.orderOf x).drop 1) := by
    have sub := h.nested x _ declares
    rw [whole, List.sublist_cons_iff] at sub
    refine sub.resolve_right fun ⟨rest, same, _⟩ => ?_
    rw [first] at same
    rw [(List.cons.inj same).1] at written
    simp [unwritten] at written
  have distinct := (h.ordered x).sublist (List.drop_sublist 1 _)
  have met := find?_of_sublist sub distinct given under
  have has : (c.entryOf (.model v.1) name).isSome := by
    rw [h.entryOf_eq, written]
    rfl
  rw [first, List.find?_cons, has] at met
  rw [← Option.some.inj met, first]
  exact .head _

/-- The class that declares a relation for a model is the one at which attribute lookup ends. -/
theorem declarer?_eq (h : c.Inherits ds) (there : m ∈ c.models) (name : String) :
    c.declarer? m name = (c.attribute? ds (.model m.id) name).map (·.1) := by
  have order : c.orderOf (.model m.id) = m.ancestry := by
    simp [orderOf, h.numbered.mem there]
  rw [attribute?, order, List.map_findSome?, declarer?]
  congr 1
  funext a
  cases a with
  | model id =>
    have table : ((c.model? id).bind fun a => a.declared.lookup name) =
        c.entryOf (.model id) name := by
      cases found : c.model? id <;> simp [entryOf, tableOf, found]
    dsimp only [Function.comp]
    rw [table]
    cases written : written? ds (.model id) name with
    | some v =>
      have own : v.1 = id := by
        have same := eq_model_of_written? written
        exact (Ancestor.model.inj same).symm
      rw [h.entryOf_eq, written]
      simp [own]
    | none =>
      cases entry : c.entryOf (.model id) name with
      | none => rfl
      | some v =>
        have other : v.1 ≠ id := by
          rintro rfl
          simp [(h.written_of_entryOf _ entry).2] at written
        simp [other]
  | _ => rfl

end Inherits

/-- Where the declared relations of a class come from, for all classes that definitions make, with
any number of bases. What attribute lookup finds is what is written on the first class of the
ancestry that declares the name; the table of the class has an entry for the same names, each
written on some class of the ancestry, and a class that does not declare a name takes the entry of
the first class behind it that has one. The tables along the ancestry follow attribute lookup if and
only if that class always knows the declaring one; so they do where of two classes of the ancestry
one knows the other. -/
theorem declared_along_ancestry {ds : List Definition} {c : Catalog}
    (made : ds.foldlM define empty = .ok c) {m : Model} (there : m ∈ c.models) (name : String) :
    c.declarer? m name = (c.attribute? ds (.model m.id) name).map (·.1) ∧
    m.declared.lookup name = (written? ds (.model m.id) name).or
      ((c.giver? (.model m.id) name).bind (c.entryOf · name)) ∧
    (∀ id d, m.declared.lookup name = some (id, d) →
      .model id ∈ m.ancestry ∧ written? ds (.model id) name = some (id, d)) ∧
    ((m.declared.lookup name).isSome ↔ (c.attribute? ds (.model m.id) name).isSome) ∧
    ((∀ a ∈ m.ancestry, c.entryOf a name = c.attribute? ds a name) ↔
      ∀ a ∈ m.ancestry, written? ds a name = none → ∀ b v, c.giver? a name = some b →
        c.attribute? ds a name = some v → .model v.1 ∈ c.orderOf b) ∧
    ((∀ i j, .model i ∈ m.ancestry → .model j ∈ m.ancestry →
        .model i ∈ c.orderOf (.model j) ∨ .model j ∈ c.orderOf (.model i)) →
      m.declared.lookup name = c.attribute? ds (.model m.id) name) := by
  have h : c.Inherits ds := by simpa using inherits_empty.foldlM made
  have found := h.numbered.mem there
  have order : c.orderOf (.model m.id) = m.ancestry := by simp [orderOf, found]
  have table : c.entryOf (.model m.id) name = m.declared.lookup name := by
    simp [entryOf, tableOf, found]
  rw [← order, ← table]
  refine ⟨h.declarer?_eq there name, h.entryOf_eq _ name, fun id d => h.written_of_entryOf _,
    ⟨fun some_ => ?_, fun some_ => ?_⟩, h.entryOf_eq_attribute?_iff _ name,
    h.entryOf_eq_attribute?_of_line _ name⟩
  · obtain ⟨v, entry⟩ := Option.isSome_iff_exists.mp some_
    obtain ⟨declares, written⟩ := h.written_of_entryOf _ entry
    exact List.findSome?_isSome_iff.mpr ⟨_, declares, Option.isSome_of_eq_some written⟩
  · obtain ⟨v, found⟩ := Option.isSome_iff_exists.mp some_
    obtain ⟨declares, written⟩ := Inherits.attribute?_eq_some found
    exact h.entryOf_of_written declares (Option.isSome_of_eq_some written)

/-- Many of a model under a foreign key. -/
def many (target key : String) : Declaration where
  form := .direct [("kind", .text "has_many"), ("model", .text target), ("foreign_key", .text key)]
  pivotColumns := []
  pivotAlias := none
  calls := []

/-- A class with relations declared on it and all settings left out. -/
def heir (name : String) (bases : Option (List String))
    (relations : List (String × Declaration)) : Definition :=
  ⟨name, name, bases, [], relations, none, [], ⟨.null, .null, .null, .null, .null, .null, .null⟩⟩

/-- A member and, below it, a guest who adds nothing, an editor with posts under another key, and a
class with both as bases. -/
def diamond : List Definition :=
  [heir "Member" none [("posts", many "Post" "member_id")],
    heir "Guest" (some ["Member"]) [],
    heir "Editor" (some ["Member"]) [("posts", many "Post" "editor_id")],
    heir "GuestEditor" (some ["Guest", "Editor"]) []]

def diamondCatalog : Catalog := (diamond.foldlM define empty).toOption.getD empty

/-- The guest, who comes first, passes on what the editor declares anew. -/
theorem guestEditor_has_member_posts : diamond.foldlM define empty = .ok diamondCatalog ∧
    ∃ m ∈ diamondCatalog.models,
      m.ancestry = [.model 3, .model 1, .model 2, .model 0, .root] ∧
      m.declared.lookup "posts" = some (0, many "Post" "member_id") ∧
      diamondCatalog.attribute? diamond (.model m.id) "posts" = some (2, many "Post" "editor_id") ∧
      diamondCatalog.declarer? m "posts" = some 2 ∧
      ¬ ∀ a ∈ m.ancestry, diamondCatalog.entryOf a "posts" =
        diamondCatalog.attribute? diamond a "posts" := by
  have made : diamond.foldlM define empty = .ok diamondCatalog := rfl
  obtain ⟨m, found⟩ : ∃ m, diamondCatalog.model? 3 = some m := ⟨_, rfl⟩
  have there : m ∈ diamondCatalog.models := Array.mem_of_getElem? found
  have id : m.id = 3 := (inherits_empty.foldlM made).numbered 3 m found
  have ancestry : m.ancestry = [.model 3, .model 1, .model 2, .model 0, .root] := by
    have order : diamondCatalog.orderOf (.model 3) =
        [.model 3, .model 1, .model 2, .model 0, .root] := rfl
    simpa [orderOf, found] using order
  have giver : diamondCatalog.giver? (.model 3) "posts" = some (.model 1) := rfl
  have entry : diamondCatalog.entryOf (.model 1) "posts" = some (0, many "Post" "member_id") := rfl
  have looked : diamondCatalog.attribute? diamond (.model 3) "posts" =
      some (2, many "Post" "editor_id") := rfl
  obtain ⟨declarer, table, -, -, follows, -⟩ := declared_along_ancestry made there "posts"
  rw [id] at declarer table
  refine ⟨made, m, there, ancestry, ?_, id ▸ looked, ?_, fun agree => ?_⟩
  · rw [table, giver]
    exact entry
  · rw [declarer, looked]
    rfl
  · have known := follows.mp agree (.model 3) (ancestry ▸ .head _) rfl _ _ giver looked
    have order : diamondCatalog.orderOf (.model 1) = [.model 1, .model 0, .root] := rfl
    simp [order] at known

end Catalog

end Relata
