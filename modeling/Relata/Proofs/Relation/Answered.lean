import Mathlib.Logic.Relation
import Relata.Proofs.Relation.Resolved
import Relata.Proofs.Schema.Inherited
import Relata.Proofs.Value.Entries

/-!
When a name is resolved at all. A composed relation asks for two others, its first hop on the same
model and its second on the model between; a name has no answer where these questions go on for
longer than compositions may refer to each other, and so where they come back to themselves.
-/

namespace Relata

open Relation (ReflTransGen TransGen)

/-- The two relations that a declaration is composed of, if it is. -/
def Declaration.hops? (d : Declaration) : Option (Value × Value) :=
  match d.form with
  | .composed first final => some (first, final)
  | .direct _ => none

/-- Relations that a composition may begin with. -/
def Descriptor.Leads (d : Descriptor) : Prop := d.kind = .hasOne ∨ d.kind = .hasMany

theorem Descriptor.leads_iff {d : Descriptor} :
    ¬ (!(d.kind == .hasOne || d.kind == .hasMany)) = true ↔ d.Leads := by
  cases kind : d.kind <;> simp [Leads, kind]

namespace Lookup

/-- The declaration of a name: the one in the static table, or else a declared relation unless the
static table has something else. -/
def declaration? (m : Model) : Value → Option Declaration
  | .text name => match m.static.lookup name with
    | some (.declaration d) => some d
    | some _ => none
    | none => (m.declared.lookup name).map (·.2)
  | _ => none

/-- The two relations that a name is composed of, if it is. -/
def hops? (m : Model) (name : Value) : Option (Value × Value) :=
  (declaration? m name).bind (·.hops?)

variable {l : Lookup} {m : Model} {name first final : Value} {e : Error} {depth : Nat}

/-- How resolving a composed name fails, given what comes of other names. -/
inductive FailsBy (l : Lookup) (answer : Model → Value → Except Error (Option Descriptor))
    (m : Model) (first final : Value) (e : Error) : Prop
  | first : answer m first = .error e → FailsBy l answer m first final e
  | between {one : Descriptor} : answer m first = .ok (some one) → one.Leads →
    l.relatedModel one = .error e → isUndescribable e = false → FailsBy l answer m first final e
  | final {one : Descriptor} {between : Model} : answer m first = .ok (some one) → one.Leads →
    l.relatedModel one = .ok between → answer between final = .error e →
    FailsBy l answer m first final e

theorem named_eq_error_iff {complete : Descriptor → String → Descriptor}
    {x : Except Error (Option (Descriptor × String))} :
    named complete x = .error e ↔ x = .error e ∧ isUndescribable e = false := by
  rcases x with e' | _ | p
  · rw [named]
    constructor
    · intro failed
      split at failed
      · cases failed
      · next describable =>
        cases failed
        exact ⟨rfl, by simpa using describable⟩
    · rintro ⟨same, describable⟩
      cases same
      rw [describable]
      rfl
  · simp [named]
  · simp [named]

/-- What a declared name resolves to is what its declaration describes, completed. -/
theorem exists_owner {name : String} {d : Declaration}
    (declared : declaration? m (.text name) = some d) :
    ∃ owner, ∀ depth, l.resolveUpTo (depth + 1) m (.text name) =
      named (·.withDefaults · l.nameOf name)
        ((l.describe depth m d).map fun found => some (found, owner)) := by
  cases static : m.static.lookup name with
  | some entry =>
    cases entry with
    | declaration own =>
      simp only [declaration?, static, Option.some.injEq] at declared
      subst declared
      refine ⟨m.name, fun depth => ?_⟩
      rw [resolveUpTo, static]
      rfl
    | _ => simp [declaration?, static] at declared
  | none =>
    obtain ⟨⟨owner, own⟩, inherited, rfl⟩ : ∃ p, m.declared.lookup name = some p ∧ p.2 = d := by
      simpa [declaration?, static] using declared
    refine ⟨((l.catalog.model? owner).map (·.name)).getD m.name, fun depth => ?_⟩
    rw [resolveUpTo, static]
    dsimp only
    rw [inherited]
    rfl

/-- What is not declared is answered at once. -/
theorem resolveUpTo_undeclared (undeclared : declaration? m name = none) :
    ∃ r, ∀ depth, l.resolveUpTo (depth + 1) m name = .ok r := by
  cases name with
  | text name =>
    cases static : m.static.lookup name with
    | some entry =>
      cases entry with
      | declaration own => simp [declaration?, static] at undeclared
      | descriptor d =>
        refine ⟨some (d.withDefaults m.name l.nameOf name), fun depth => ?_⟩
        rw [resolveUpTo, static]
      | value v =>
        cases read : Descriptor.ofValue v with
        | good d =>
          refine ⟨some (d.withDefaults m.name l.nameOf name), fun depth => ?_⟩
          rw [resolveUpTo, static]
          dsimp only
          rw [read]
          rfl
        | bad issues =>
          refine ⟨none, fun depth => ?_⟩
          rw [resolveUpTo, static]
          dsimp only
          rw [read]
          rfl
    | none =>
      have uninherited : m.declared.lookup name = none := by
        simpa [declaration?, static] using undeclared
      refine ⟨none, fun depth => ?_⟩
      rw [resolveUpTo, static]
      dsimp only
      rw [uninherited]
  | _ => exact ⟨none, fun _ => rfl⟩

/-- What fails for good is not taken for a relation that is not there. -/
theorem isUndescribable_of_resolveUpTo (h : l.resolveUpTo depth m name = .error e) :
    isUndescribable e = false := by
  cases depth with
  | zero =>
    rw [resolveUpTo] at h
    cases h
    rfl
  | succ depth =>
    cases declared : declaration? m name with
    | none =>
      obtain ⟨r, answers⟩ := resolveUpTo_undeclared (l := l) declared
      rw [answers] at h
      cases h
    | some d =>
      cases name with
      | text name =>
        obtain ⟨owner, described⟩ := exists_owner (l := l) declared
        rw [described] at h
        exact (named_eq_error_iff.mp h).2
      | _ => cases declared

/-- A name that is not composed has its answer two levels down. -/
theorem resolveUpTo_plain (plain : hops? m name = none) :
    ∃ r, ∀ depth, l.resolveUpTo (depth + 2) m name = .ok r := by
  cases declared : declaration? m name with
  | none =>
    obtain ⟨r, answers⟩ := resolveUpTo_undeclared (l := l) declared
    exact ⟨r, fun depth => answers (depth + 1)⟩
  | some d =>
    cases name with
    | text name =>
      obtain ⟨owner, described⟩ := exists_owner (l := l) declared
      rw [hops?, declared, Option.bind_some, Declaration.hops?] at plain
      cases form : d.form with
      | composed first final => simp [form] at plain
      | direct fields =>
        have direct : ∀ depth, l.describe (depth + 1) m d = (d.describe fields).toExcept := by
          intro depth
          rw [describe, form]
        simp only [described, direct]
        cases d.describe fields with
        | good found => exact ⟨_, fun _ => rfl⟩
        | bad issues => exact ⟨none, fun _ => rfl⟩
    | _ => cases declared

theorem bind_eq_error_iff {α β : Type} {x : Except Error α} {f : α → Except Error β} :
    (x >>= f) = .error e ↔ x = .error e ∨ ∃ a, x = .ok a ∧ f a = .error e := by
  cases x <;> simp [bind, Except.bind]

/-- A relation that has to be there fails for good if looking for it does. -/
theorem requireUpTo_eq_error_iff (describable : isUndescribable e = false) :
    l.requireUpTo (depth + 1) m name = .error e ↔ l.resolveUpTo depth m name = .error e := by
  rw [requireUpTo, bind_eq_error_iff]
  refine or_iff_left ?_
  rintro ⟨found, -, failed⟩
  cases found <;> cases failed
  cases describable

theorem requireUpTo_eq_ok_iff {d : Descriptor} :
    l.requireUpTo (depth + 1) m name = .ok d ↔ l.resolveUpTo depth m name = .ok (some d) := by
  rw [requireUpTo]
  rcases l.resolveUpTo depth m name with e | _ | own
  · constructor <;> intro h <;> cases h
  · constructor <;> intro h <;> cases h
  · constructor <;> intro h <;> cases h <;> rfl

/-- A composition that is put together fails only as a relation that is not there. -/
theorem isUndescribable_of_compose {one two : Descriptor} {between : Model} {calls : List Call}
    {model missing : String}
    (h : compose one two between calls (.relationNotFound model missing) = .error e) :
    isUndescribable e = true := by
  unfold compose at h
  dsimp only at h
  split at h <;> cases h
  rfl

/-- What a composed name resolves to is what its declaration describes, completed. -/
theorem exists_composition (l : Lookup) (composed : hops? m name = some (first, final)) :
    ∃ text d owner, name = .text text ∧ declaration? m name = some d ∧
      d.form = .composed first final ∧ ∀ depth, l.resolveUpTo (depth + 1) m name =
        named (·.withDefaults · l.nameOf text)
          ((l.describe depth m d).map fun found => some (found, owner)) := by
  obtain ⟨d, declared, hops⟩ := Option.bind_eq_some_iff.mp composed
  obtain ⟨text, rfl⟩ : ∃ text, name = .text text := by
    cases name with
    | text name => exact ⟨name, rfl⟩
    | _ => cases declared
  have form : d.form = .composed first final := by
    unfold Declaration.hops? at hops
    split at hops
    · next given =>
      cases hops
      exact given
    · cases hops
  obtain ⟨owner, described⟩ := exists_owner (l := l) declared
  exact ⟨text, d, owner, rfl, declared, form, described⟩

/-- A composed name fails for good if one of its hops does, or if the first of them leads to
something that is no model. -/
theorem resolveUpTo_eq_error_iff (composed : hops? m name = some (first, final)) :
    l.resolveUpTo (depth + 3) m name = .error e ↔
      l.FailsBy (l.resolveUpTo depth) m first final e := by
  obtain ⟨text, d, owner, rfl, -, form, described⟩ := exists_composition l composed
  have reduced : l.resolveUpTo (depth + 3) m (.text text) = .error e ↔
      l.describe (depth + 2) m d = .error e ∧ isUndescribable e = false := by
    rw [described, named_eq_error_iff]
    refine and_congr_left fun _ => ?_
    cases l.describe (depth + 2) m d <;> simp [Except.map]
  rw [reduced, describe, form]
  dsimp only
  rw [bind_eq_error_iff]
  constructor
  · rintro ⟨failed | ⟨one, resolved, failed⟩, describable⟩
    · exact .first ((requireUpTo_eq_error_iff describable).mp failed)
    · have resolved := requireUpTo_eq_ok_iff.mp resolved
      split at failed
      · cases failed
        cases describable
      · next leads =>
        have leads := Descriptor.leads_iff.mp leads
        rcases bind_eq_error_iff.mp failed with failed | ⟨between, led, failed⟩
        · exact .between resolved leads failed describable
        · rcases bind_eq_error_iff.mp failed with failed | ⟨two, -, failed⟩
          · exact .final resolved leads led ((requireUpTo_eq_error_iff describable).mp failed)
          · rw [isUndescribable_of_compose failed] at describable
            cases describable
  · rintro (failed | ⟨resolved, leads, failed, describable⟩ | ⟨resolved, leads, led, failed⟩)
    · have describable := isUndescribable_of_resolveUpTo failed
      exact ⟨.inl ((requireUpTo_eq_error_iff describable).mpr failed), describable⟩
    · refine ⟨.inr ⟨_, requireUpTo_eq_ok_iff.mpr resolved, ?_⟩, describable⟩
      rw [if_neg (Descriptor.leads_iff.mpr leads)]
      exact bind_eq_error_iff.mpr (.inl failed)
    · have describable := isUndescribable_of_resolveUpTo failed
      refine ⟨.inr ⟨_, requireUpTo_eq_ok_iff.mpr resolved, ?_⟩, describable⟩
      rw [if_neg (Descriptor.leads_iff.mpr leads)]
      refine bind_eq_error_iff.mpr (.inr ⟨_, led, ?_⟩)
      exact bind_eq_error_iff.mpr (.inl ((requireUpTo_eq_error_iff describable).mpr failed))

/-- What resolving a name asks for: the first hop of a composition, and the second one on the model
to which the first leads. -/
inductive Asks (l : Lookup) : Model × Value → Model × Value → Prop
  | first {m : Model} {name first final : Value} : hops? m name = some (first, final) →
    Asks l (m, name) (m, first)
  | final {m between : Model} {name first final : Value} {one : Descriptor} :
    hops? m name = some (first, final) → l.resolve m first = .ok (some one) → one.Leads →
    l.relatedModel one = .ok between → Asks l (m, name) (between, final)

/-- The questions go on for `n` steps. -/
def Deep (l : Lookup) : Nat → Model × Value → Prop
  | 0, _ => True
  | n + 1, p => ∃ q, l.Asks p q ∧ l.Deep n q

/-- The first hop is there, and what its target stands for is no model. -/
def Astray (l : Lookup) (p : Model × Value) : Prop :=
  ∃ first final one v, hops? p.1 p.2 = some (first, final) ∧
    l.resolve p.1 first = .ok (some one) ∧ one.Leads ∧
    l.tags.resolve l.catalog one.target = .ok v ∧ v.isNull = false ∧
    ∀ id, v = .model id → l.catalog.model? id = none

variable {p q : Model × Value} {n : Nat}

/-- A name that is resolved at some depth is resolved to the same at any other, or that is too
small. -/
theorem resolveUpTo_of_resolve {r : Option Descriptor} (h : l.resolve m name = .ok r)
    (depth : Nat) :
    l.resolveUpTo depth m name = .error .tooDeep ∨ l.resolveUpTo depth m name = .ok r := by
  rcases Nat.le_total depth compositionDepth with le | le
  · rcases l.settles_of_le le m name with short | same
    · exact .inl short
    · exact .inr (same.symm.trans h)
  · have same := (l.settles_of_le le m name).eq (by rw [← resolve, h]; simp)
    exact .inr (same.trans h)

/-- Each question takes three levels. -/
theorem tooDeep_of_deep (deep : l.Deep n p) :
    l.resolveUpTo (3 * n) p.1 p.2 = .error .tooDeep := by
  induction n generalizing p with
  | zero => rw [Nat.mul_zero, resolveUpTo]
  | succ n ih =>
    obtain ⟨q, asks, deep⟩ := deep
    have further := ih deep
    cases asks with
    | first composed => exact (resolveUpTo_eq_error_iff composed).mpr (.first further)
    | final composed resolved leads led =>
      refine (resolveUpTo_eq_error_iff composed).mpr ?_
      rcases resolveUpTo_of_resolve resolved (3 * n) with short | found
      · exact .first short
      · exact .final found leads led further

theorem of_resolve_eq_error {t : TagMap} {c : Catalog} {reference : Value}
    (h : t.resolve c reference = .error e) : isUndescribable e = true := by
  unfold TagMap.resolve at h
  split at h
  · cases h
  · cases h
  · unfold TagMap.modelFor at h
    split at h
    · cases h
      rfl
    · split at h <;> cases h

/-- Why a reference leads to no model: it leads nowhere, or what it stands for is none. -/
theorem of_target_eq_error {reference : Value} (h : l.target reference = .error e) :
    isUndescribable e = true ∨ e = .noAttribute ∧
      ∃ v, l.tags.resolve l.catalog reference = .ok v ∧ v.isNull = false ∧
        ∀ id, v = .model id → l.catalog.model? id = none := by
  rcases bind_eq_error_iff.mp h with failed | ⟨v, stands, failed⟩
  · exact .inl (of_resolve_eq_error failed)
  · split at failed
    · cases failed
      exact .inl rfl
    · next given =>
      refine .inr ?_
      unfold asModel at failed
      split at failed
      · next id =>
        split at failed
        · cases failed
        · next missing =>
          cases failed
          exact ⟨rfl, _, stands, by simpa using given, fun own same =>
            Value.model.inj same ▸ missing⟩
      · next other =>
        cases failed
        exact ⟨rfl, v, stands, by simpa using given, fun own same => absurd same (other own)⟩

/-- What goes on within the depth that there is, or fails for another reason. -/
theorem deep_or_astray (within : 3 * n ≤ compositionDepth)
    (h : l.resolveUpTo (3 * n) p.1 p.2 = .error e) :
    (e = .tooDeep ∧ l.Deep n p) ∨
      (e = .noAttribute ∧ ∃ q, ReflTransGen l.Asks p q ∧ l.Astray q) := by
  induction n generalizing p with
  | zero =>
    rw [Nat.mul_zero, resolveUpTo] at h
    cases h
    exact .inl ⟨rfl, trivial⟩
  | succ n ih =>
    have inner := fun q => ih (p := q) (Nat.le_trans (by omega) within)
    have resolved {m : Model} {name : Value} {d : Descriptor}
        (found : l.resolveUpTo (3 * n) m name = .ok (some d)) :
        l.resolve m name = .ok (some d) := by
      have le : 3 * n ≤ compositionDepth := Nat.le_trans (by omega) within
      exact ((l.settles_of_le le m name).eq (by simp [found])).trans found
    have step {q : Model × Value} (asks : l.Asks p q)
        (failed : l.resolveUpTo (3 * n) q.1 q.2 = .error e) :
        (e = .tooDeep ∧ l.Deep (n + 1) p) ∨
          (e = .noAttribute ∧ ∃ q, ReflTransGen l.Asks p q ∧ l.Astray q) := by
      rcases inner q failed with ⟨rfl, deep⟩ | ⟨rfl, end_, reach, astray⟩
      · exact .inl ⟨rfl, q, asks, deep⟩
      · exact .inr ⟨rfl, end_, .head asks reach, astray⟩
    obtain ⟨m, name⟩ := p
    cases composed : hops? m name with
    | none =>
      obtain ⟨r, answers⟩ := resolveUpTo_plain (l := l) composed
      rw [show 3 * (n + 1) = 3 * n + 1 + 2 by omega, answers] at h
      cases h
    | some hops =>
      rcases (resolveUpTo_eq_error_iff composed).mp h with
        failed | ⟨found, leads, failed, describable⟩ | ⟨found, leads, led, failed⟩
      · exact step (.first composed) failed
      · rcases of_target_eq_error failed with undescribable | ⟨rfl, v, stands⟩
        · simp [describable] at undescribable
        · exact .inr ⟨rfl, _, .refl, _, _, _, v, composed, resolved found, leads, stands⟩
      · exact step (.final composed (resolved found) leads led) failed

theorem Deep.of_succ (h : l.Deep (n + 1) p) : l.Deep n p := by
  induction n generalizing p with
  | zero => trivial
  | succ n ih =>
    obtain ⟨q, asks, deep⟩ := h
    exact ⟨q, asks, ih deep⟩

theorem Deep.of_asks (reach : ReflTransGen l.Asks p q) (deep : l.Deep n q) : l.Deep n p := by
  induction reach using ReflTransGen.head_induction_on with
  | refl => exact deep
  | head asks _ ih => exact Deep.of_succ ⟨_, asks, ih⟩

/-- Questions that come back to themselves go on for ever. -/
theorem deep_of_cycle (cycle : TransGen l.Asks q q) (n : Nat) : l.Deep n q := by
  induction n with
  | zero => trivial
  | succ n ih =>
    obtain ⟨p, asks, reach⟩ := TransGen.head'_iff.mp cycle
    exact ⟨p, asks, ih.of_asks reach⟩

/-- The composed relations of a catalog, each with its model. -/
def compositions (c : Catalog) : List (ModelId × Value) :=
  c.models.toList.flatMap fun m =>
    (m.relationNames.filter fun name => (hops? m (.text name)).isSome).map fun name =>
      (m.id, .text name)

theorem mem_relationNames {text : String} {d : Declaration}
    (declared : declaration? m (.text text) = some d) : text ∈ m.relationNames := by
  unfold Model.relationNames
  cases static : m.static.lookup text with
  | some entry =>
    obtain ⟨before, after, split_, -⟩ := List.lookup_eq_some_iff.mp static
    exact List.mem_append_left _ (by simp [split_])
  | none =>
    obtain ⟨p, inherited, -⟩ : ∃ p, m.declared.lookup text = some p ∧ p.2 = d := by
      simpa [declaration?, static] using declared
    obtain ⟨before, after, split_, -⟩ := List.lookup_eq_some_iff.mp inherited
    refine List.mem_append_right _ (List.mem_filter.mpr ⟨by simp [split_], ?_⟩)
    have missing := List.lookup_eq_none_iff.mp static
    refine Bool.not_eq_eq_eq_not.mpr (Bool.eq_false_iff.mpr fun listed => ?_)
    obtain ⟨e, own, same⟩ := List.mem_map.mp (List.contains_iff_mem.mp listed)
    exact bne_iff_ne.mp (missing e own) same.symm

theorem mem_compositions {c : Catalog} {hops : Value × Value} (there : m ∈ c.models)
    (composed : hops? m name = some hops) : (m.id, name) ∈ compositions c := by
  obtain ⟨d, declared, -⟩ := Option.bind_eq_some_iff.mp composed
  obtain ⟨text, rfl⟩ : ∃ text, name = .text text := by
    cases name with
    | text name => exact ⟨name, rfl⟩
    | _ => cases declared
  refine List.mem_flatMap.mpr ⟨m, Array.mem_toList_iff.mpr there, List.mem_map.mpr ⟨text, ?_, rfl⟩⟩
  exact List.mem_filter.mpr ⟨mem_relationNames declared, Option.isSome_of_eq_some composed⟩

theorem mem_of_relatedModel {one : Descriptor} (h : l.relatedModel one = .ok m) :
    m ∈ l.catalog.models := by
  obtain ⟨v, -, led⟩ := ok_of_bind h
  split at led
  · cases led
  · unfold asModel at led
    split at led
    · split at led
      · next found =>
        cases led
        exact Array.mem_of_getElem? found
      · cases led
    · cases led

theorem Asks.mem (asks : l.Asks p q) (there : p.1 ∈ l.catalog.models) :
    q.1 ∈ l.catalog.models := by
  cases asks with
  | first _ => exact there
  | final _ _ _ led => exact mem_of_relatedModel led

theorem Asks.composed (asks : l.Asks p q) : ∃ hops, hops? p.1 p.2 = some hops := by
  cases asks with
  | first composed => exact ⟨_, composed⟩
  | final composed _ _ _ => exact ⟨_, composed⟩

/-- Where no question comes back to itself, there are no more of them in a row than there are
composed relations: by induction on how long they go on, with those that have been asked. -/
theorem Deep.le_length (deep : l.Deep n p) (numbered : l.catalog.Numbered)
    (there : p.1 ∈ l.catalog.models)
    (acyclic : ∀ q, ReflTransGen l.Asks p q → ¬ TransGen l.Asks q q)
    (asked : List (Model × Value)) (distinct : (asked.map fun q => (q.1.id, q.2)).Nodup)
    (known : ∀ q ∈ asked, q.1 ∈ l.catalog.models ∧ (q.1.id, q.2) ∈ compositions l.catalog ∧
      TransGen l.Asks q p) :
    n + asked.length ≤ (compositions l.catalog).length := by
  induction n generalizing p asked with
  | zero =>
    have sub : (asked.map fun q => (q.1.id, q.2)) ⊆ compositions l.catalog := by
      intro key listed
      obtain ⟨q, own, rfl⟩ := List.mem_map.mp listed
      exact (known q own).2.1
    simpa using distinct.length_le_of_subset sub
  | succ n ih =>
    obtain ⟨q, asks, deep⟩ := deep
    obtain ⟨hops, composed⟩ := asks.composed
    have fresh : (p.1.id, p.2) ∉ asked.map fun q => (q.1.id, q.2) := by
      intro listed
      obtain ⟨r, own, same⟩ := List.mem_map.mp listed
      obtain ⟨member, -, reach⟩ := known r own
      obtain ⟨id, name⟩ := Prod.mk.inj same
      have found := numbered.mem member
      rw [id, numbered.mem there] at found
      obtain rfl : r = p := Prod.ext (Option.some.inj found).symm name
      exact acyclic r .refl reach
    have further := ih deep (asks.mem there) (fun r reach => acyclic r (.head asks reach))
      (p :: asked) (List.nodup_cons.mpr ⟨fresh, distinct⟩) fun r listed => by
        rcases List.mem_cons.mp listed with rfl | own
        · exact ⟨there, mem_compositions there composed, .single asks⟩
        · obtain ⟨member, key, reach⟩ := known r own
          exact ⟨member, key, reach.tail asks⟩
    rw [List.length_cons] at further
    omega

/-- When a name has an answer, for any models and aliases, and with any declarations and static
tables. Resolving it fails for want of depth if and only if its questions go on for two hundred
steps, and otherwise only if the first hop of a composition leads to what is no model; what it comes
to does not depend on the depth if that is enough. A name whose questions come back to themselves
has no answer at any depth; where none do, and none leads to what is no model, every name has one
unless there are two hundred compositions. -/
theorem resolve_answers (l : Lookup) (m : Model) (name : Value) :
    (l.resolve m name = .error .tooDeep ↔ l.Deep 200 (m, name)) ∧
    (∀ e, l.resolve m name = .error e → e = .tooDeep ∨
      e = .noAttribute ∧ ∃ p, ReflTransGen l.Asks (m, name) p ∧ l.Astray p) ∧
    (l.resolve m name ≠ .error .tooDeep → ∀ depth, compositionDepth ≤ depth →
      l.resolveUpTo depth m name = l.resolve m name) ∧
    (∀ p, ReflTransGen l.Asks (m, name) p → TransGen l.Asks p p →
      ∀ depth, l.resolveUpTo depth m name = .error .tooDeep) ∧
    (l.catalog.Defined → m ∈ l.catalog.models → (compositions l.catalog).length < 200 →
      (∀ p, ReflTransGen l.Asks (m, name) p → ¬ TransGen l.Asks p p ∧ ¬ l.Astray p) →
      ∃ r, l.resolve m name = .ok r) := by
  have in_steps : ∀ {e}, l.resolve m name = .error e → (e = .tooDeep ∧ l.Deep 200 (m, name)) ∨
      (e = .noAttribute ∧ ∃ q, ReflTransGen l.Asks (m, name) q ∧ l.Astray q) :=
    deep_or_astray (n := 200) (p := (m, name)) (Nat.le_refl _)
  refine ⟨⟨fun failed => ?_, tooDeep_of_deep⟩, fun e failed => ?_, fun given depth le => ?_,
    fun p reach cycle depth => ?_, fun defined there few sound => ?_⟩
  · rcases in_steps failed with ⟨-, deep⟩ | ⟨absurd, -⟩
    · exact deep
    · cases absurd
  · exact (in_steps failed).imp (·.1) id
  · exact (l.settles_of_le le m name).eq given
  · have deep := (deep_of_cycle cycle depth).of_asks reach
    rcases l.settles_of_le (Nat.le_mul_of_pos_left depth (Nat.succ_pos 2)) m name with short | same
    · exact short
    · exact same.symm.trans (tooDeep_of_deep deep)
  · cases resolved : l.resolve m name with
    | ok r => exact ⟨r, rfl⟩
    | error e =>
      rcases in_steps resolved with ⟨-, deep⟩ | ⟨-, q, reach, astray⟩
      · have le := deep.le_length defined.grounded.numbered there (fun p reach => (sound p reach).1)
          [] List.nodup_nil fun _ none_ => nomatch none_
        simp only [List.length_nil, Nat.add_zero] at le
        omega
      · exact absurd astray (sound q reach).2

/-- Countries with users, who have posts, the posts of the users, and a composition that begins with
itself. -/
def atlas : List Definition :=
  [Catalog.heir "Post" none [],
    Catalog.heir "User" none [("posts", Catalog.many "Post" "user_id")],
    Catalog.heir "Country" none [("users", Catalog.many "User" "country_id"),
      ("posts", ⟨.composed (.text "users") (.text "posts"), [], none, []⟩),
      ("circle", ⟨.composed (.text "circle") (.text "posts"), [], none, []⟩)]]

def atlasLookup : Lookup := ⟨(atlas.foldlM Catalog.define .empty).toOption.getD .empty, .empty⟩

theorem defined_atlas : atlasLookup.catalog.Defined :=
  have made : atlas.foldlM Catalog.define .empty = .ok atlasLookup.catalog := rfl
  Catalog.Defined.empty.foldlM (by decide) made

def country : Model :=
  have bound : 2 < atlasLookup.catalog.models.size := by decide
  atlasLookup.catalog.models[2]

/-- The hops of the posts of a country are not composed. -/
theorem plain_of_asks (asks : atlasLookup.Asks (country, .text "posts") p) :
    hops? p.1 p.2 = none := by
  cases asks with
  | first composed =>
    cases composed
    rfl
  | final composed resolved _ led =>
    cases composed
    have users : atlasLookup.resolve country (.text "users") = .ok (some _) := rfl
    cases users.symm.trans resolved
    cases led
    rfl

theorem not_asks_of_plain (plain : hops? p.1 p.2 = none) : ¬ l.Asks p q := by
  intro asks
  obtain ⟨hops, composed⟩ := asks.composed
  simp [plain] at composed

/-- The posts of a country have an answer; the circle has none. -/
theorem circle_has_no_answer : country ∈ atlasLookup.catalog.models ∧
    (∀ depth, atlasLookup.resolveUpTo depth country (.text "circle") = .error .tooDeep) ∧
    ∃ r, atlasLookup.resolve country (.text "posts") = .ok r := by
  have there : country ∈ atlasLookup.catalog.models := Array.getElem_mem _
  obtain ⟨-, -, -, circular, -⟩ := resolve_answers atlasLookup country (.text "circle")
  obtain ⟨-, -, -, -, answers⟩ := resolve_answers atlasLookup country (.text "posts")
  have circle : hops? country (.text "circle") = some (.text "circle", .text "posts") := rfl
  refine ⟨there, circular _ .refl (.single (.first circle)), ?_⟩
  refine answers defined_atlas there (by decide) fun p reach => ?_
  have here : p = (country, .text "posts") ∨ hops? p.1 p.2 = none := by
    induction reach with
    | refl => exact .inl rfl
    | tail _ asks ih =>
      rcases ih with rfl | plain
      · exact .inr (plain_of_asks asks)
      · exact absurd asks (not_asks_of_plain plain)
  rcases here with rfl | plain
  · refine ⟨fun cycle => ?_, ?_⟩
    · obtain ⟨q, asks, back⟩ := TransGen.head'_iff.mp cycle
      have plain := plain_of_asks asks
      rcases ReflTransGen.cases_head back with rfl | ⟨r, again, -⟩
      · cases plain
      · exact not_asks_of_plain plain again
    · rintro ⟨first, final, one, v, composed, resolved, -, stands, -, missing⟩
      cases composed
      have users : atlasLookup.resolve country (.text "users") = .ok (some _) := rfl
      cases users.symm.trans resolved
      cases stands
      cases missing 1 rfl
  · refine ⟨fun cycle => ?_, ?_⟩
    · obtain ⟨q, asks, -⟩ := TransGen.head'_iff.mp cycle
      exact not_asks_of_plain plain asks
    · rintro ⟨first, final, -, -, composed, -⟩
      cases plain.symm.trans composed

end Lookup

end Relata
