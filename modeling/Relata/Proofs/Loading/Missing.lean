import Mathlib.Data.Set.List
import Relata.Proofs.Loading.Delivered
import Relata.Proofs.Loading.Demanded
import Relata.Proofs.Loading.Members
import Relata.Proofs.Loading.ReadOnly
import Relata.Proofs.Loading.Twice

/-!
Loading what is missing. What was loaded stays as it was, and a relation is fetched by keys of objects that
lack it and that the paths come to. Statements are also sent for objects that the load itself brings, when
the queries that fetch them ask for relations in turn; those objects had nothing loaded before.
-/

namespace Relata

open Act (Runs Carries Ends)
open Deed (Made)
open RelationPath (Begins Enters)

namespace Env

variable (env : Env)

/-- The relations lead from a value to another one, one after the other, as far as they are loaded. -/
def Reaches : List String → Value → Value → Prop
  | [], v, o => v = o
  | name :: rest, v, o => ∃ x, Loader.relationOf env v name = .ok x ∧ ∃ u ∈ env.heldBy x, Reaches rest u o

theorem follows_of_null {env : Env} {polymorphic : Bool} {names : List String} {v : Value}
    (null : v.isNull = true) : env.Follows polymorphic names v := by
  cases names with
  | nil => trivial
  | cons => exact fun there => absurd null (Bool.eq_false_iff.mp there)

end Env

/-- Segments that one of the paths begins with, columns aside. -/
def RelationPath.Wanted (paths : List Value) (p : List String) : Prop :=
  p ≠ [] ∧ ∃ path ∈ paths, ∃ text columns, parse path = .ok (.text text, columns) ∧ p <+: steps text

theorem RelationPath.wanted_text {paths : List String} (bare : ∀ path ∈ paths, ':' ∉ path.toList)
    {p : List String} : Wanted (paths.map .text) p ↔ Begins paths p := by
  refine and_congr_right fun _ => ⟨?_, ?_⟩
  · rintro ⟨_, there, text, columns, read, begins⟩
    obtain ⟨path, own, rfl⟩ := List.mem_map.mp there
    rw [parse_of_bare (bare path own)] at read
    obtain ⟨same, -⟩ := Prod.mk.inj (Except.ok.inj read)
    obtain rfl := Value.text.inj same
    exact ⟨path, own, begins⟩
  · rintro ⟨path, own, begins⟩
    exact ⟨_, List.mem_map_of_mem own, path, [], parse_of_bare (bare path own), begins⟩

namespace World

variable {τ : Type} {w s t u : World τ} {objects : List Value} {wanted others : List String → Prop}
  {own own' callbacks : List (Value × Value)} {name : String} {r : Request}

/-- How a load refines what it fetches: as it was asked to, or as a query asks by which it fetches a
relation. -/
inductive Refines (w : World τ) (own : List (Value × Value)) : List (Value × Value) → Prop
  | own : w.Refines own own
  | asked {s : World τ} {loader : Loader} {d : Descriptor} {m related : Model} {path : String}
      {keys : List Value} {q : Query} (later : w.Endures s) (refines : w.Refines own loader.callbacks)
      (built : loader.asking s.toEnv d m related path keys = .ok q) : w.Refines own q.loads.callbacks

theorem Refines.of_later (h : s.Refines own' callbacks) (endures : w.Endures s)
    (refines : w.Refines own own') : w.Refines own callbacks := by
  induction h with
  | own => exact refines
  | asked later _ built ih => exact .asked (endures.trans later) ih built

/-- An object of that class, on which that relation of the class is not loaded. -/
structure Wanting (s : World τ) (m : Model) (name : String) (d : Descriptor) (o : Value) : Prop where
  present : s.Present o
  class_ : s.modelOfValue? o = some m
  relation : s.relationOn? o name = some d
  unloaded : s.isLoadedOn (.text name) o = false

theorem Wanting.object {m : Model} {d : Descriptor} {o : Value} (h : s.Wanting m name d o) :
    ∃ id < s.objects.size, o = .object id := by
  have class_ := h.class_
  cases o with
  | object id => exact ⟨id, h.present id rfl, rfl⟩
  | _ => cases class_

/-- The request fetches a relation, refined as is allowed, by keys each of which is held by an object that
lacks it, one of those it is due on. -/
def Seeks (s : World τ) (allowed : List (Value × Value) → Prop) (due : Value → Prop) (name : String)
    (r : Request) : Prop :=
  ∃ loader d m related path keys q u, allowed loader.callbacks ∧ s.Grows u ∧
    Loader.asking loader u.toEnv d m related path keys = .ok q ∧ q.Hands u r ∧ keys ≠ [] ∧
      ∀ key ∈ keys, ∃ o, due o ∧ s.Wanting m name d o ∧ s.Gives d related o key

theorem Seeks.mono {allowed allowed' : List (Value × Value) → Prop} {due due' : Value → Prop}
    (h : s.Seeks allowed due name r) (wider : ∀ c, allowed c → allowed' c) (more : ∀ o, due o → due' o) :
    s.Seeks allowed' due' name r := by
  obtain ⟨loader, d, m, related, path, keys, q, u, refined, grows, built, hands, some_, held⟩ := h
  exact ⟨loader, d, m, related, path, keys, q, u, wider _ refined, grows, built, hands, some_,
    fun key listed => (held key listed).imp fun o own => ⟨more o own.1, own.2⟩⟩

/-- A relation is due on what the segments before it lead to, and on what new objects lead to. -/
def Due (w s : World τ) (objects : List Value) (wanted : List String → Prop) (name : String)
    (o : Value) : Prop :=
  (∃ p, wanted (p ++ [name]) ∧ ∃ v ∈ objects, s.Reaches p v o) ∨
    ∃ id p, w.objects.size ≤ id ∧ s.Reaches p (.object id) o

/-- The request fetches a relation by keys of objects that it is due on and that lack it, in a world where
everything is still there. -/
def Misses (w : World τ) (objects : List Value) (wanted : List String → Prop) (own : List (Value × Value))
    (r : Request) : Prop :=
  ∃ s name, w.Endures s ∧ s.Seeks (w.Refines own) (w.Due s objects wanted name) name r

theorem Misses.mono {more : List Value} (h : w.Misses objects others own r)
    (among : ∀ v ∈ objects, v ∈ more) (nested : ∀ p, others p → wanted p) : w.Misses more wanted own r := by
  obtain ⟨s, name, later, seeks⟩ := h
  refine ⟨s, name, later, seeks.mono (fun _ => id) fun o due => due.imp_left ?_⟩
  rintro ⟨p, want, v, there, reaches⟩
  exact ⟨p, nested _ want, v, among v there, reaches⟩

/-- What a load of new objects misses. -/
theorem Misses.of_new (h : s.Misses objects others own' r) (endures : w.Endures s)
    (refines : w.Refines own own') (new : ∀ v ∈ objects, ∃ id, w.objects.size ≤ id ∧ v = .object id)
    (above : List Value) : w.Misses above wanted own r := by
  obtain ⟨u, name, later, seeks⟩ := h
  refine ⟨u, name, endures.trans later,
    seeks.mono (fun _ h => h.of_later endures refines) fun o due => .inr ?_⟩
  obtain ⟨p, -, v, there, reaches⟩ | ⟨id, p, size, reaches⟩ := due
  · obtain ⟨id, size, rfl⟩ := new v there
    exact ⟨id, p, size, reaches⟩
  · exact ⟨id, p, endures.retains.size_le.trans size, reaches⟩

/-- What a load of what a relation leads to misses. -/
theorem Misses.of_below {below : List Value} (h : s.Misses below others own r) (endures : w.Endures s)
    (anchored : s.Anchored) (nested : ∀ p, others p → wanted (name :: p))
    (led : ∀ v ∈ below, ∃ o ∈ objects, ∃ x, Loader.relationOf s.toEnv o name = .ok x ∧ v ∈ s.heldBy x) :
    w.Misses objects wanted own r := by
  obtain ⟨u, last, later, seeks⟩ := h
  refine ⟨u, last, endures.trans later,
    seeks.mono (fun _ h => h.of_later endures .own) fun o due => ?_⟩
  obtain ⟨p, want, v, there, reaches⟩ | ⟨id, p, size, reaches⟩ := due
  · obtain ⟨first, own, x, loaded, among⟩ := led v there
    obtain ⟨id, e, -, at_, value⟩ := Loader.relationOf_eq_ok.mp loaded
    refine .inl ⟨name :: p, nested _ want, first, own, x, later.retains.relationOf loaded, v, ?_, reaches⟩
    rwa [later.retains.heldBy (anchored at_ value)]
  · exact .inr ⟨id, p, endures.retains.size_le.trans size, reaches⟩

end World

namespace Loader

variable {τ : Type} {w s t : World τ} {sent : Dialogue} {depth : Nat} {self : Loader} {d : Descriptor}
  {m : Model} {path name : String} {C : List (Value × Value) → Prop} {P : Request → Prop}
  {ids : List ObjectId}

theorem endures_begun (w : World τ) (ids : List ObjectId) (name : String) : w.Endures (begun w ids name) := by
  refine ⟨?_, w.grows_begun ids name⟩
  unfold begun World.changed
  induction ids generalizing w with
  | nil => exact .refl w
  | cons id rest ih =>
    exact (World.Retains.modified w id (fun e => e.model_beginLoading _)
      fun e other => e.value?_beginLoading _ other).trans (ih _)

theorem isLoadedOn_begun (v : Value) :
    (begun w ids name).isLoadedOn (.text name) v = w.isLoadedOn (.text name) v := by
  cases v with
  | object id =>
    have passing : ∀ c ∈ ids.map fun id => (id, SlotChange.begin_ name), c.2.Passing name := by
      simp [SlotChange.Passing]
    have same : (begun w ids name).valueOf id name = w.valueOf id name :=
      World.valueOf_changed_of_passing passing id name
    have read (w : World τ) : w.isLoadedOn (.text name) (.object id) = (w.valueOf id name).isSome := by
      change (w.object? id).any _ = ((w.object? id).bind _).isSome
      cases w.object? id <;> rfl
    rw [read, read, same]
  | _ => rfl

/-- Whoever waits alone. -/
def alone : Pact (World τ) := ⟨fun _ _ => True, Eq, fun _ => True⟩

theorem lenient_alone : (alone (τ := τ)).Lenient where
  guar _ := trivial
  rely same := same ▸ .refl _
  waits _ _ := trivial

/-- What an action without a result comes to holds of each run of it by itself. -/
theorem holds_alone {x : Deed τ Unit} {Q : Except Error Unit → World τ → Prop} (ends : Ends alone x w Q)
    {r : Except Error Unit} (runs : Runs Eq x w sent r t) : Q r t :=
  ends.holds (Act.injective_map (f := fun _ => Value.null) fun _ _ _ => rfl) id runs

/-- A load of what is missing, nested at most so deep, sends nothing but what is missed on the objects or
below them. -/
def Spares (τ : Type) (depth : Nat) : Prop :=
  ∀ {w t : World τ} {loader : Loader} {objects : List Value} (paths : List Value) (at_ : Position)
    {sent : Dialogue}, w.Anchored → loader.force = false → (∀ v ∈ objects, w.Present v) →
      Carries (loadBelow depth loader objects paths at_) w sent (.ok ()) t →
        ∀ e ∈ sent, w.Misses objects (RelationPath.Wanted paths) loader.callbacks e.1

/-- Everything stays when a load by itself ends well. -/
theorem endures_of_loadBelow {loader : Loader} {objects paths : List Value} {at_ : Position}
    (anchored : w.Anchored) (kept : loader.force = false) (present : ∀ v ∈ objects, w.Present v)
    (carries : Carries (loadBelow depth loader objects paths at_) w sent (.ok ()) t) : w.Endures t := by
  obtain ⟨runs, grows⟩ := (made_loadBelow depth loader objects paths at_).runs_of_carries World.Grows.refl
    World.Grows.trans carries
  exact ⟨(holds_alone (lenient_alone.delivers depth paths at_ trivial anchored kept present) runs).1, grows⟩

/-- What is loaded on new objects, beside a load from which everything stays. -/
theorem Spares.tells (ih : Spares τ depth) {w₀ : World τ} {objects : List Value} {wanted : List String → Prop}
    {own : List (Value × Value)} (endures : w₀.Endures w) (anchored : w.Anchored) :
    Tells (w₀.Refines own) (w₀.Misses objects wanted own) (below depth) w := by
  intro s t loader new paths sent later own kept refines runs
  have present : ∀ v ∈ new, s.Present v := by
    intro v there id same
    obtain ⟨i, -, inside, rfl⟩ := own v there
    exact Value.object.inj same ▸ inside
  have anchored' : s.Anchored := later.retains.anchored anchored
  refine ⟨endures_of_loadBelow anchored' kept present runs.carries, fun e there => ?_⟩
  refine (ih paths ⟨"", false⟩ anchored' kept present runs.carries e there).of_new (endures.trans later)
    refines (fun v there => ?_) objects
  obtain ⟨i, size, -, rfl⟩ := own v there
  exact ⟨i, endures.retains.size_le.trans size, rfl⟩

theorem lacks_begun {v : Value} (lacks : w.Wanting m name d v) : (begun w ids name).Wanting m name d v where
  present := World.present_of_size lacks.present (endures_begun w ids name).retains.size_le
  class_ := ((endures_begun w ids name).retains.modelOfValue? lacks.present).trans lacks.class_
  relation := ((endures_begun w ids name).retains.relationOn? lacks.present name).trans lacks.relation
  unloaded := (isLoadedOn_begun v).trans lacks.unloaded

/-- A relation is fetched by keys of the objects that wait for it. -/
theorem told_loadPending {pending : List Value} (tells : Tells C P (below depth) w) (own : C self.callbacks)
    (lacks : ∀ v ∈ pending, w.Wanting m name d v)
    (refines : ∀ {s loader d m related path keys q}, w.Endures s → C loader.callbacks →
      Loader.asking loader s.toEnv d m related path keys = .ok q → C q.loads.callbacks)
    (asks : ∀ s r, w.Endures s → s.Seeks C (· ∈ pending) name r → P r)
    (carries : Carries (loadPending (below depth) self d m path (.text name) pending) w sent (.ok ()) t) :
    ∀ e ∈ sent, P e.1 := by
  obtain ⟨ids, rfl⟩ : pending ∈ Set.range (List.map Value.object) := by
    rw [Set.range_list_map]
    exact fun v there => (lacks v there).object.imp fun _ own => own.2.symm
  obtain ⟨first, last, outcome, u, rfl, runs, -, concludes⟩ := carries_loadPending carries
  have begun_ := endures_begun w ids name
  cases outcome with
  | error e =>
    obtain ⟨-, absurd, -⟩ := concludes.silent (runs_abandon e u)
    cases absurd
  | ok values =>
    obtain ⟨rfl, -⟩ := adds_marking (carries_conclude concludes)
    rw [List.append_nil]
    refine (told_fetching (tells.later begun_) (fun s later related keys some_ held q built =>
      ⟨refines (begun_.trans later) own built, fun r hands => ?_⟩) runs.carries).2
    refine asks (begun w ids name) r begun_
      ⟨self, d, m, related, path, keys, q, s, own, later.grows, built, hands, some_, fun key listed => ?_⟩
    obtain ⟨o, there, gives⟩ := held key listed
    exact ⟨o, there, lacks_begun (lacks o there), gives⟩

/-- One relation on objects of one class: it is fetched by keys of those of them that lack it, and everything
stays. -/
theorem told_loadRelation (tells : Tells C P (below depth) w) (anchored : w.Anchored)
    (kept : self.force = false) (allowed : C self.callbacks) {members : List Value}
    (own : w.OneClass members) {at_ : Position} {found : Option Descriptor}
    (refines : ∀ {s loader d m related path keys q}, w.Endures s → C loader.callbacks →
      Loader.asking loader s.toEnv d m related path keys = .ok q → C q.loads.callbacks)
    (asks : ∀ s r, w.Endures s → s.Seeks C (· ∈ members) name r → P r)
    (carries : Carries (loadRelation (below depth) self members name at_) w sent (.ok found) t) :
    w.Endures t ∧ ∀ e ∈ sent, P e.1 := by
  obtain ⟨described, known, carries⟩ := Deed.carries_getsExcept_bind carries
  obtain ⟨relation, -, model⟩ := Pact.Lenient.relationOn?_of_described known
  cases described with
  | none =>
    exact told_pure carries
  | some there =>
    obtain ⟨m, d⟩ := there
    have carries := Deed.carries_gets_bind carries
    simp only [kept, Bool.false_eq_true, if_false] at carries
    generalize same : members.filter (!w.isLoadedOn (.text name) ·) = pending at carries
    have among : ∀ v ∈ pending, v ∈ members ∧ w.isLoadedOn (.text name) v = false := fun v there => by
      rw [← same] at there
      simpa using List.mem_filter.mp there
    -- The relation was looked up on the first object, and the others are of its class.
    have lacks : ∀ v ∈ pending, w.Wanting m name d v := fun v there => by
      obtain ⟨member, unloaded⟩ := among v there
      have class_ := own.same v member
      exact ⟨own.present v member, class_.trans (model _ rfl),
        (congrArg (·.bind fun m => (w.resolve m (.text name)).toOption.join) class_).trans relation, unloaded⟩
    split at carries
    · have made : Made World.Grows (loadPending (τ := τ) (below depth) self d m (at_.above ++ name)
          (.text name) pending) :=
        (@Manner.Loads.loadPending _ _ 0 _ _ _ _ Deed.loads_making tends_making m name _ fun _ _ => trivial).1
      obtain ⟨first, _, _, u, rfl, runs, grows, ends⟩ := made.ok_of_bind carries
      obtain ⟨rfl, -, rfl⟩ := ends.silent (.ofExcept (.ok (some d)) u)
      have fresh : ∀ v ∈ pending, (∃ id < w.objects.size, v = .object id) ∧
          w.isLoadedOn (.text name) v = false := fun v there =>
        ⟨(lacks v there).object, (lacks v there).unloaded⟩
      have retains : w.Retains t := by
        refine (holds_alone (lenient_alone.ends_loadPending trivial ?_ fresh) runs).1
        exact Pact.Delivers.fetches (lenient_alone.delivers depth) lenient_alone trivial anchored
      refine ⟨⟨retains, grows⟩, ?_⟩
      rw [List.append_nil]
      exact told_loadPending tells allowed lacks refines (fun s r later seeks => asks s r later
        (seeks.mono (fun _ => id) fun o there => (among o there).1)) runs.carries
    · exact told_pure carries

/-- What a relation leads to is what the objects hold in it. -/
theorem carries_children_ok {members below : List Value}
    (carries : Carries (children members name) w sent (.ok below) t) :
    sent = [] ∧ t = w ∧
      ∀ v ∈ below, ∃ o ∈ members, ∃ x, relationOf w.toEnv o name = .ok x ∧ v ∈ w.heldBy x := by
  have made_reads : Made World.Grows (members.mapM fun o =>
      Act.getsExcept fun w : World τ => relationOf w.toEnv o name) := .mapM fun o => .getsExcept _
  obtain ⟨_, _, values, u, rfl, gets, -, rest⟩ := made_reads.ok_of_bind carries
  obtain ⟨rfl, rfl, read⟩ := Deed.carries_reads gets.carries
  obtain ⟨rfl, same, rfl⟩ := (Deed.carries_gets_bind rest).silent (.ofExcept (.ok _) u)
  obtain rfl := Except.ok.inj same
  refine ⟨rfl, rfl, fun v there => ?_⟩
  obtain ⟨x, listed, held⟩ := List.mem_flatMap.mp there
  obtain ⟨o, member, loaded⟩ := exists_of_mem_right read listed
  exact ⟨o, member, x, loaded, held⟩

/-- A segment with what is nested behind it, on objects of one class. -/
def segment (depth : Nat) (self : Loader) (at_ : Position) (members : List Value)
    (g : String × List String) : Deed τ Unit :=
  loadName (below depth) (fun d found => loadBelow depth self found (g.2.map .text)
    ⟨at_.above ++ g.1 ++ ".", d.kind == .morphTo⟩) self members at_ g.1 g.2

theorem made_segment (at_ : Position) (members : List Value) (g : String × List String) :
    Made (τ := τ) World.Grows (segment depth self at_ members g) :=
  made_loadName (fun _ _ => made_loadBelow _ _ _ _ _) _ _ _ _

section Below

variable {w₀ : World τ} {objects members : List Value} {wanted : List String → Prop} {at_ : Position}
  {g : String × List String} (ih : Spares τ depth) (endures : w₀.Endures w) (anchored : w.Anchored)
  (kept : self.force = false) (among : ∀ v ∈ members, v ∈ objects)
  (bare : ∀ rest ∈ g.2, ':' ∉ rest.toList) (wants : ∀ p, Enters g p → wanted p)
include ih endures anchored kept among bare wants

/-- What follows a segment, on what the segment leads to. -/
theorem told_nested {morph : Bool} (carries : Carries (children members g.1 >>= fun below =>
      if !below.isEmpty then loadBelow depth self below (g.2.map .text) ⟨at_.above ++ g.1 ++ ".", morph⟩
      else pure ()) w sent (.ok ()) t) :
    w.Endures t ∧ ∀ e ∈ sent, w₀.Misses objects wanted self.callbacks e.1 := by
  obtain ⟨_, last, below, u, rfl, reads, -, goes⟩ := (made_children _ _).ok_of_bind carries
  obtain ⟨rfl, rfl, led⟩ := carries_children_ok reads.carries
  split at goes
  · have present : ∀ v ∈ below, u.Present v := fun v there => by
      obtain ⟨o, -, x, loaded, held⟩ := led v there
      obtain ⟨id, e, -, at_, value⟩ := relationOf_eq_ok.mp loaded
      exact (anchored at_ value).held v held
    refine ⟨endures_of_loadBelow anchored kept present goes, fun e there => ?_⟩
    refine (ih _ _ anchored kept present goes e there).of_below endures anchored
      (fun p want => wants _ (.inr ⟨p, rfl, (RelationPath.wanted_text bare).mp want⟩)) fun v there => ?_
    obtain ⟨o, member, led⟩ := led v there
    exact ⟨o, among o member, led⟩
  · exact told_pure goes

/-- One segment, with what follows it, on objects of one class. -/
theorem told_segment (own : w.OneClass members)
    (carries : Carries (segment depth self at_ members g) w sent (.ok ()) t) :
    w.Endures t ∧ ∀ e ∈ sent, w₀.Misses objects wanted self.callbacks e.1 := by
  obtain ⟨first, later, found, u, rfl, runs, -, rest⟩ := (made_loadRelation _ _ _).ok_of_bind carries
  have tells : Tells (w₀.Refines self.callbacks) (w₀.Misses objects wanted self.callbacks) (below depth) w :=
    ih.tells endures anchored
  obtain ⟨here, told⟩ := told_loadRelation tells anchored kept .own own
    (fun later refines built => refines.asked (endures.trans later) built)
    (fun s r later seeks => ⟨s, g.1, endures.trans later, seeks.mono (fun _ => id) fun o there =>
      .inl ⟨[], wants _ (.inl rfl), o, among o there, rfl⟩⟩) runs.carries
  obtain ⟨there, told'⟩ : u.Endures t ∧ ∀ e ∈ later, w₀.Misses objects wanted self.callbacks e.1 := by
    cases found with
    | none =>
      exact told_pure rest
    | some d =>
      dsimp only at rest
      split at rest
      · exact told_nested ih (endures.trans here) (here.retains.anchored anchored) kept among bare wants rest
      · exact told_pure rest
  exact ⟨here.trans there, fun e among => (List.mem_append.mp among).elim (told e) (told' e)⟩

end Below

/-- A text that is cut into segments is read of one of the paths. -/
theorem exists_of_segmented {paths : List Value} {read : List (Value × List Value)} {segments : List String}
    (parsed : paths.mapM RelationPath.parse = .ok read)
    (cut : (read.mapM fun p => segmented p.1) = .ok segments) {text : String} (there : text ∈ segments) :
    ∃ path ∈ paths, ∃ columns, RelationPath.parse path = .ok (.text text, columns) := by
  obtain ⟨⟨shown, columns⟩, listed, same⟩ := (exists_of_mapM cut).2 _ there
  obtain ⟨path, hpath, own⟩ := (exists_of_mapM parsed).2 _ listed
  cases shown with
  | text text =>
    obtain rfl := Except.ok.inj same
    exact ⟨path, hpath, columns, own⟩
  | _ => cases same

/-- Nested however deep, a load sends nothing but what is missed: by induction on the depth. -/
theorem spares (depth : Nat) : Spares τ depth := by
  induction depth with
  | zero =>
    intro w t loader objects paths at_ sent _ _ _ carries
    obtain ⟨-, absurd, -⟩ := carries.silent (.ofExcept (.error .tooDeep) w)
    cases absurd
  | succ depth ih =>
    intro w t loader objects paths at_ sent anchored kept present carries
    rw [loadBelow] at carries
    obtain ⟨read, parsed, carries⟩ := Deed.carries_ofExcept_bind carries
    have carries := Deed.carries_gets_bind carries
    -- Columns written behind the paths are the loader's from here on; how it refines stays as it was.
    generalize List.foldl _ loader.columns read = columns at carries
    let self : Loader := { loader with columns := columns }
    have kept : self.force = false := kept
    have carries : Carries ((byClass w.toEnv objects).forM fun group => do
        let segments ← Act.ofExcept (read.mapM fun p => segmented p.1)
        (RelationPath.group segments).forM (segment depth self at_ group.2)) w sent (.ok ()) t := carries
    refine (told_forM (fun group : ClassKey × List Value => (Made.ofExcept _).bind fun _ =>
      .forM (made_segment at_ group.2)) (fun group there s s' sent begun runs => ?_) carries).2
    have among : ∀ v ∈ group.2, v ∈ objects := fun v hv => (mem_byClass.mp ⟨group, there, hv⟩).1
    have own := begun.retains.oneClass
      (Env.oneClass_of_uniform (uniform_byClass group there) fun v hv => present v (among v hv))
    obtain ⟨segments, cut, loops⟩ := Deed.carries_ofExcept_bind runs.carries
    refine told_forM (made_segment at_ group.2) (fun g hg u u' sent later runs => ?_) loops
    change u.Endures u' ∧ ∀ e ∈ sent, w.Misses objects (RelationPath.Wanted paths) self.callbacks e.1
    refine told_segment ih (begun.trans later) ((begun.trans later).retains.anchored anchored) kept among
      (fun rest hrest => ?_) (fun p enters => ?_) (later.retains.oneClass own) runs.carries
    · obtain ⟨path, hpath, -, rfl, -⟩ := RelationPath.nests_group segments g hg rest hrest
      obtain ⟨_, _, columns, read⟩ := exists_of_segmented parsed cut hpath
      exact RelationPath.not_mem_rest (RelationPath.bare_of_parse read rfl)
    · obtain ⟨some_, text, there, begins⟩ := RelationPath.begins_iff_enters.mpr ⟨g, hg, enters⟩
      obtain ⟨path, hpath, columns, read⟩ := exists_of_segmented parsed cut there
      exact ⟨some_, path, hpath, text, columns, read, begins⟩

end Loader

namespace Deed

open Loader

variable {τ : Type} {w t : World τ} {objects : List Value} {registry : Value} {sent : Dialogue}

/-- Loading on objects without force: what is loaded stays, each path that is asked for leads all the way on,
and nothing is sent but what is missed. -/
theorem spares_loadMany {relations : Value} {r : LoadRequest} (asks : request w.toEnv relations = .ok r)
    (anchored : w.Anchored) (present : ∀ v ∈ objects, w.Present v)
    (runs : Runs Eq (loadMany objects relations registry false) w sent (.ok ()) t) :
    w.Retains t ∧
      (∀ path, .text path ∈ r.paths → ∀ v ∈ objects, t.Follows false (RelationPath.steps path) v) ∧
      ∀ e ∈ sent, w.Misses objects (RelationPath.Wanted r.paths) r.callbacks e.1 := by
  have carries := runs.carries
  unfold loadMany at carries
  dsimp only at carries
  split at carries
  · next none =>
    have none : ∀ v ∈ objects, v.isNull = true := by simpa using none
    obtain ⟨rfl, -, rfl⟩ := carries.silent (.ofExcept (.ok ()) w)
    exact ⟨.refl _, fun _ _ v there => Env.follows_of_null (none v there), List.forall_mem_nil _⟩
  · obtain ⟨_, same, loads⟩ := Deed.carries_getsExcept_bind carries
    obtain rfl := Except.ok.inj (asks.symm.trans same)
    have among : ∀ v ∈ objects.filter (!·.isNull), v ∈ objects := fun v there => (List.mem_filter.mp there).1
    have still : ∀ v ∈ objects.filter (!·.isNull), w.Present v := fun v there => present v (among v there)
    obtain ⟨loading, -⟩ := (made_loadBelow _ _ _ _ _).runs_of_carries World.Grows.refl World.Grows.trans loads
    obtain ⟨retains, follows⟩ := holds_alone
      (lenient_alone.delivers depthLimit r.paths ⟨"", false⟩ trivial anchored rfl still) loading
    refine ⟨retains, fun path there v own => ?_, fun e there => ?_⟩
    · by_cases null : v.isNull = true
      · exact Env.follows_of_null null
      · exact follows rfl path there (bare_of_request asks there) v
          (List.mem_filter.mpr ⟨own, by simpa using null⟩)
    · exact (spares depthLimit r.paths ⟨"", false⟩ anchored rfl still loads e there).mono among fun _ => id

/-- Loading what is missing for a list of paths, on objects of any classes, repeated ones and null among them,
keeps what is loaded: whatever relation an object had, it has still, and with the same value. Each path leads
all the way on from each object, save that objects behind a relation whose target depends on the row are
passed over if their class has no such relation. And each statement asks for a relation by keys of objects
that lack it, to which the paths come, or which new objects lead to. -/
theorem the_missing_alone_is_loaded {paths : List String} (anchored : w.Anchored)
    (present : ∀ v ∈ objects, w.Present v)
    (runs : Runs Eq (loadMany objects (.list (paths.map .text)) registry false) w sent (.ok ()) t) :
    w.Retains t ∧
      (∀ path ∈ paths, ∀ v ∈ objects,
        t.Follows false (RelationPath.steps (RelationPath.read path).relation) v) ∧
      ∀ e ∈ sent, w.Misses objects
        (RelationPath.Begins (paths.map fun path => (RelationPath.read path).relation)) [] e.1 := by
  obtain ⟨r, asks, callbacks, asked⟩ := request_texts w.toEnv paths
  obtain ⟨retains, follows, misses⟩ := spares_loadMany asks anchored present runs
  refine ⟨retains, fun path there => follows _ ((asked _).mpr ⟨path, there, rfl⟩), fun e there => ?_⟩
  rw [← callbacks]
  refine (misses e there).mono (fun _ => id) ?_
  rintro p ⟨some_, path, listed, text, columns, parsed, begins⟩
  obtain ⟨path, own, rfl⟩ := (asked _).mp listed
  rw [RelationPath.parse_of_bare (bare_of_request asks listed)] at parsed
  obtain ⟨same, -⟩ := Prod.mk.inj (Except.ok.inj parsed)
  obtain rfl := Value.text.inj same
  exact ⟨some_, _, List.mem_map_of_mem own, begins⟩

/-- A post that is known to have no replies. -/
def knownPost : Entity := { Members.labelledPost 1 with slots := [(.text "replies", .loaded (.list []))] }

def halfLoaded : World Unit := { Members.twoPosts with objects := #[knownPost, Members.labelledPost 2] }

/-- There is a reply to the second post. -/
def laterReply (r : Request) : Except Error (List Row) :=
  .ok (if r.params.any (·.same (.int 2)) then [[("id", .int 10), ("parent", .int 2)]] else [])

theorem anchored_halfLoaded : halfLoaded.Anchored := by
  intro id e name v there value
  have own : e ∈ [knownPost, Members.labelledPost 2] :=
    Array.mem_of_getElem? there |> Array.mem_toList_iff.mpr
  obtain rfl | rfl : e = knownPost ∨ e = Members.labelledPost 2 := by simpa using own
  · obtain rfl : v = .list [] := by
      simp only [Entity.value?, Entity.slot?, knownPost, Value.lookup?] at value
      split at value <;> simp_all
    exact ⟨fun _ absurd => (by cases absurd), List.forall_mem_nil _⟩
  · simp [Entity.value?, Entity.slot?, Members.labelledPost, Value.lookup?] at value

/-- Replies and replies to them, for a list that holds the second post twice, and null. -/
theorem missing_replies_loaded :
    halfLoaded.Anchored ∧ (∀ v ∈ [.object 0, .null, .object 1, .object 1], halfLoaded.Present v) ∧
      ∃ sent t, Runs Eq (loadMany [.object 0, .null, .object 1, .object 1]
        (.list (["replies.replies"].map .text)) .null false) halfLoaded sent (.ok ()) t ∧
      t.objects.size = 3 ∧ halfLoaded.Retains t ∧
      (∀ path ∈ ["replies.replies"], ∀ v ∈ [.object 0, .null, .object 1, .object 1],
        t.Follows false (RelationPath.steps (RelationPath.read path).relation) v) ∧
      ∀ e ∈ sent, halfLoaded.Misses [.object 0, .null, .object 1, .object 1] (RelationPath.Begins
        (["replies.replies"].map fun path => (RelationPath.read path).relation)) [] e.1 := by
  have present : ∀ v ∈ [.object 0, .null, .object 1, .object 1], halfLoaded.Present v := by
    simp [Env.Present, halfLoaded]
  obtain ⟨sent, runs, -⟩ := @runs_of_finish laterReply _ (made_loadMany
    [.object 0, .null, .object 1, .object 1] (.list (["replies.replies"].map .text)) .null false)
    halfLoaded (by decide +kernel)
  exact ⟨anchored_halfLoaded, present, sent, _, runs, by decide +kernel,
    the_missing_alone_is_loaded anchored_halfLoaded present runs⟩

/-- Labels that name a relation of theirs which leads over one that they lack. -/
def vagueLabel : Model :=
  { Members.label with
    declared := [("writers", 1, ⟨.composed (.text "nothing") (.text "writers"), [], none, []⟩)] }

def vaguelyLabelled : World Unit :=
  { Members.twoPosts with catalog := ⟨#[Members.subjectPost, vagueLabel]⟩ }

/-- Behind a relation whose target depends on the row a relation that is declared but comes to none is passed
over as well: the load ends well without it. -/
theorem declared_relation_passed_over :
    let after := Schedule.finish (((do
      loadMany [.object 0] (.list [.text "subject.writers"]) .null false
      return .null : Deed Unit Value) .done).answered Members.shelf) vaguelyLabelled
    after.1.isOk = true ∧ after.2.leadsOn ["subject"] (.object 0) = true ∧
      (after.2.modelOfValue? (.object 2)).any (·.relationNames.contains "writers") = true ∧
        after.2.leadsOn ["subject", "writers"] (.object 0) = false := by
  decide +kernel

end Deed

end Relata
