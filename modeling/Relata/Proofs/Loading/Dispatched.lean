import Relata.Proofs.Loading.Targets
import Relata.Proofs.Loading.Visits

/-!
What the fetch leaves behind for a relation whose target depends on the row. Each object is filed under
the model that its tag names, or it is warned of, or passed over; for each of these models the distinct
identifiers of all objects that are filed under it are asked for, in chunks, and each object is given the
first of the objects found that bears its identifier.
-/

namespace Relata

open Act (Runs Carries)
open Deed (Made Stepwise)

/-- What is warned of a tag that nothing bears. -/
def Env.unresolved (env : Env) (path : String) (o tag : Value) : String :=
  s!"Cannot resolve morph type `{env.shown tag}` for {env.className o}.{path}, assigning None"

/-- What an object names by its tag, with what is warned of. -/
def Env.targetFor (env : Env) (d : Descriptor) (path : String) (o : Value) :
    Except Error (Option Value × List String) := do
  let tag ← env.propertyOrNull o (Descriptor.written d.typeColumn)
  if tag.isNull then return (none, [])
  let target ← env.tags.modelFor env.catalog tag
  if target.isNull then return (none, [env.unresolved path o tag])
  if env.areKeys [target] then return (some target, []) else throw .badType

/-- More warnings are given. -/
def World.warned {τ : Type} (w : World τ) (texts : List String) : World τ :=
  { w with warnings := w.warnings ++ texts }

@[simp] theorem World.warned_nil {τ : Type} (w : World τ) : w.warned [] = w := by
  simp [warned]

@[simp] theorem World.warned_warned {τ : Type} (w : World τ) (texts more : List String) :
    (w.warned texts).warned more = w.warned (texts ++ more) := by
  simp [warned]

theorem World.grows_warned {τ : Type} (w : World τ) (texts : List String) : w.Grows (w.warned texts) :=
  .of_warnings w _

namespace Loader

variable {τ : Type} {w t : World τ} {sent : Dialogue} {depth : Nat} {self : Loader} {d : Descriptor}
  {path : String} {R : World τ → World τ → Prop}

/-- Objects filed under their targets, those that have one. -/
def filed (groups : List (Value × List Value)) (pairs : List (Value × Option Value)) :
    List (Value × List Value) :=
  pairs.foldl (fun groups p => p.2.elim groups fun target => Matches.add groups target p.1) groups

theorem runs_targetOf (w : World τ) {o : Value} {found : Option Value × List String}
    (named : w.targetFor d path o = .ok found) :
    Runs Eq (targetOf d path o) w [] (.ok found.1) (w.warned found.2) := by
  unfold Env.targetFor at named
  obtain ⟨tag, tagged, named⟩ := ok_of_bind named
  refine (Runs.getsExcept_ok (f := fun w : World τ => w.propertyOrNull o _) tagged).bind ?_
  split at named
  · next untagged =>
    obtain rfl := Except.ok.inj named
    rw [if_pos untagged, World.warned_nil]
    exact .ofExcept (.ok none) w
  · next tagged =>
    obtain ⟨target, looked, named⟩ := ok_of_bind named
    rw [if_neg tagged]
    refine (Runs.getsExcept_ok (f := fun w : World τ => w.tags.modelFor w.catalog tag) looked).bind ?_
    split at named
    · next unknown =>
      obtain rfl := Except.ok.inj named
      rw [if_pos unknown]
      refine Runs.bind (.getsExcept (fun w => .ok (w.className o, w.shown tag)) w) ?_
      exact Runs.bind (.modify _ w) (.ofExcept (.ok none) _)
    · next known =>
      rw [if_neg known]
      split at named
      · next hashes =>
        obtain rfl := Except.ok.inj named
        have passes : Runs Eq (keysMustHash [target]) w [] (.ok ()) w := by
          refine Runs.bind (.getsExcept (fun w => .ok (w.areKeys [target])) w) ?_
          rw [hashes]
          exact .ofExcept (.ok ()) w
        rw [World.warned_nil]
        exact Runs.bind passes (.ofExcept (.ok (some target)) w)
      · cases named

/-- An object whose target is looked up has one, or is warned of, or has no tag. -/
theorem carries_targetOf {o : Value} {found : Option Value}
    (carries : Carries (targetOf d path o) w sent (.ok found) t) :
    ∃ texts, w.targetFor d path o = .ok (found, texts) ∧ sent = [] ∧ t = w.warned texts := by
  suffices ∃ f, w.targetFor d path o = .ok f by
    obtain ⟨f, named⟩ := this
    obtain ⟨rfl, same, rfl⟩ := carries.silent (runs_targetOf w named)
    obtain rfl := Except.ok.inj same
    exact ⟨f.2, named, rfl, rfl⟩
  unfold Env.targetFor
  obtain ⟨tag, tagged, carries⟩ := Deed.carries_getsExcept_bind carries
  rw [tagged]
  change ∃ f, (if tag.isNull then _ else _) = _
  split
  · exact ⟨_, rfl⟩
  · next given =>
    rw [if_neg given] at carries
    obtain ⟨target, looked, carries⟩ := Deed.carries_getsExcept_bind carries
    rw [looked]
    change ∃ f, (if target.isNull then _ else _) = _
    split
    · exact ⟨_, rfl⟩
    · next known =>
      rw [if_neg known] at carries
      obtain ⟨_, _, _, _, -, hashes, -, -⟩ := (made_keysMustHash [target]).ok_of_bind carries
      have passes := Deed.carries_gets_bind hashes.carries
      cases keys : w.areKeys [target] with
      | true => exact ⟨_, rfl⟩
      | false =>
        rw [keys] at passes
        obtain ⟨-, absurd, -⟩ := passes.silent (.ofExcept (.error .badType) w)
        cases absurd

theorem made_targetOf (o : Value) : Made (τ := τ) World.Grows (targetOf d path o) := by
  refine (Deed.made_propertyOrNull _ _).bind fun tag => ?_
  split
  · exact .pure none
  · refine (Made.getsExcept _).bind fun target => ?_
    split
    · exact (Made.gets _).bind fun _ => (Deed.made_warn _).bind fun _ => .pure none
    · exact (made_keysMustHash _).bind fun _ => .pure (some target)

theorem carries_targetsByTag {objects : List Value} {groups : List (Value × List Value)}
    (carries : Carries (targetsByTag d path objects) w sent (.ok groups) t) :
    ∃ named, List.Forall₂ (fun o f => w.targetFor d path o = .ok f) objects named ∧ sent = [] ∧
      groups = filed [] (objects.zip (named.map (·.1))) ∧ t = w.warned (named.flatMap (·.2)) := by
  rw [targetsByTag_eq] at carries
  generalize ([] : List (Value × List Value)) = begun at carries ⊢
  induction objects generalizing w sent begun with
  | nil =>
    obtain ⟨rfl, same, rfl⟩ := carries.silent (.ofExcept (.ok begun) w)
    exact ⟨[], .nil, rfl, (Except.ok.inj same), by simp⟩
  | cons o rest ih =>
    simp only [List.foldlM_cons, bind_assoc, pure_bind] at carries
    obtain ⟨_, _, found, _, rfl, own, -, carries⟩ := (made_targetOf o).ok_of_bind carries
    obtain ⟨texts, here, rfl, rfl⟩ := carries_targetOf own.carries
    obtain ⟨named, others, rfl, rfl, rfl⟩ := ih _ carries
    exact ⟨(found, texts) :: named, .cons here others, rfl, rfl, by simp⟩

/-! Filing. -/

theorem mem_filed {groups : List (Value × List Value)} {pairs : List (Value × Option Value)}
    {group : Value × List Value} {o : Value} (h : group ∈ filed groups pairs) (own : o ∈ group.2) :
    (∃ before ∈ groups, before.1 = group.1 ∧ o ∈ before.2) ∨
      ∃ target, (o, some target) ∈ pairs ∧ (target = group.1 ∨ target.same group.1 = true) := by
  induction pairs generalizing groups with
  | nil => exact .inl ⟨group, h, rfl, own⟩
  | cons p rest ih =>
    obtain ⟨v, target | target⟩ := p
    · exact (ih h).imp_right fun ⟨target, there, own⟩ => ⟨target, .tail _ there, own⟩
    · obtain ⟨before, there, same, member⟩ | ⟨target', there, own⟩ := ih h
      · change before ∈ Matches.add groups target v at there
        unfold Matches.add at there
        split at there
        · obtain ⟨earlier, was, rfl⟩ := List.mem_map.mp there
          split at same
          · next joins =>
            rw [if_pos joins] at member
            rcases List.mem_append.mp member with old | new
            · exact .inl ⟨earlier, was, same, old⟩
            · obtain rfl := List.mem_singleton.mp new
              exact .inr ⟨target, .head _, .inr (same ▸ joins)⟩
          · next apart =>
            rw [if_neg apart] at member
            exact .inl ⟨earlier, was, same, member⟩
        · rcases List.mem_append.mp there with old | new
          · exact .inl ⟨before, old, same, member⟩
          · obtain rfl := List.mem_singleton.mp new
            obtain rfl := List.mem_singleton.mp member
            exact .inr ⟨target, .head _, .inl same⟩
      · exact .inr ⟨target', .tail _ there, own⟩

/-- Whatever is filed under opened its group. -/
theorem exists_of_mem_filed {groups : List (Value × List Value)} {pairs : List (Value × Option Value)}
    {group : Value × List Value} (h : group ∈ filed groups pairs) :
    (∃ before ∈ groups, before.1 = group.1) ∨ ∃ o, (o, some group.1) ∈ pairs := by
  induction pairs generalizing groups with
  | nil => exact .inl ⟨group, h, rfl⟩
  | cons p rest ih =>
    obtain ⟨v, target | target⟩ := p
    · exact (ih h).imp_right fun ⟨o, there⟩ => ⟨o, .tail _ there⟩
    · obtain ⟨before, there, same⟩ | ⟨o, there⟩ := ih h
      · change before ∈ Matches.add groups target v at there
        unfold Matches.add at there
        split at there
        · obtain ⟨earlier, was, rfl⟩ := List.mem_map.mp there
          refine .inl ⟨earlier, was, ?_⟩
          split at same <;> exact same
        · rcases List.mem_append.mp there with old | new
          · exact .inl ⟨before, old, same⟩
          · obtain rfl := List.mem_singleton.mp new
            exact .inr ⟨v, same ▸ .head _⟩
      · exact .inr ⟨o, .tail _ there⟩

theorem exists_mem_add (m : Matches) (key v : Value) : ∃ group ∈ m.add key v, v ∈ group.2 := by
  unfold Matches.add
  split
  · next there =>
    obtain ⟨e, he, own⟩ := List.any_eq_true.mp there
    exact ⟨_, List.mem_map_of_mem he, by simp [own]⟩
  · exact ⟨(key, [v]), by simp, by simp⟩

theorem stays_added {m : Matches} {group : Value × List Value} {o : Value} (h : group ∈ m)
    (own : o ∈ group.2) (key v : Value) : ∃ later ∈ m.add key v, o ∈ later.2 := by
  unfold Matches.add
  split
  · refine ⟨_, List.mem_map_of_mem h, ?_⟩
    split
    · exact List.mem_append_left _ own
    · exact own
  · exact ⟨group, List.mem_append_left _ h, own⟩

/-- Whatever has a target is filed. -/
theorem exists_filed {groups : List (Value × List Value)} {pairs : List (Value × Option Value)} {o : Value}
    (h : (∃ group ∈ groups, o ∈ group.2) ∨ ∃ target, (o, some target) ∈ pairs) :
    ∃ group ∈ filed groups pairs, o ∈ group.2 := by
  induction pairs generalizing groups with
  | nil => exact h.resolve_right (by simp)
  | cons p rest ih =>
    obtain ⟨v, found⟩ := p
    refine ih ?_
    obtain ⟨group, there, own⟩ | ⟨target, there⟩ := h
    · cases found with
      | none => exact .inl ⟨group, there, own⟩
      | some target => exact .inl (stays_added there own target v)
    · rcases List.mem_cons.mp there with same | later
      · obtain ⟨rfl, rfl⟩ := Prod.mk.inj same
        exact .inl (exists_mem_add groups target o)
      · exact .inr ⟨target, later⟩

/-- Of the objects found by identifier, the first one that bears it. -/
def bearer (related : List (Value × ObjectId)) (id : Value) : Value :=
  ((Value.lookup? id related).map .object).getD .null

/-- The statements for the pieces of the distinct identifiers of the objects that are filed under one
model, and what comes of the rows. -/
def TargetPages (R : World τ → World τ → Prop) (loader : Loader) (d : Descriptor) (path : String)
    (w t : World τ) (group : Value × List Value) (pages : List (Dialogue × List (Value × ObjectId))) :
    Prop :=
  ∃ m w' ids pieces, w.asModel group.1 = .ok m ∧ R w w' ∧
    List.Forall₂ (fun o id => w'.propertyOrNull o (Descriptor.written d.idColumn) = .ok id) group.2 ids ∧
    chunks loader.chunkSize (distinctKeys ids) = .ok pieces ∧
    List.Forall₂ (fun keys page => Page R (fun w => loader.targetQuery w.toEnv d m path keys) .null
      (ReadOff fun o w => w.requireProperty (.object o) "id") w t page) pieces pages

/-- What is found for each object that is filed under a model. -/
def TargetsFound (d : Descriptor) (w t : World τ) (related : List (Value × ObjectId)) (members : List Value)
    (found : List (Value × Value)) : Prop :=
  ∃ w', w.Grows w' ∧ w'.Grows t ∧ List.Forall₂ (fun o p => p.1 = o ∧ ∃ id,
    w'.propertyOrNull o (Descriptor.written d.idColumn) = .ok id ∧ p.2 = bearer related id) members found

theorem TargetsFound.before {related : List (Value × ObjectId)} {members : List Value}
    {found : List (Value × Value)} {w₀ : World τ} (h : TargetsFound d w t related members found)
    (grows : w₀.Grows w) : TargetsFound d w₀ t related members found := by
  obtain ⟨w', before, after, each⟩ := h
  exact ⟨w', grows.trans before, after, each⟩

/-- What is sent for the objects that are filed under one model, and what is found for each of them. -/
def TargetsOf (R : World τ → World τ → Prop) (loader : Loader) (d : Descriptor) (path : String)
    (w t : World τ) (group : Value × List Value) (found : Dialogue × List (Value × Value)) : Prop :=
  ∃ pages, found.1 = pages.flatMap (·.1) ∧ TargetPages R loader d path w t group pages ∧
    TargetsFound d w t (pages.flatMap (·.2)) group.2 found.2

/-- What is sent for the objects of one model after those of another, and what is found for them. -/
structure Dispatch (R : World τ → World τ → Prop) (loader : Loader) (d : Descriptor) (path : String)
    (groups : List (Value × List Value)) (w t : World τ) (sent : Dialogue)
    (found : List (Dialogue × List (Value × Value))) : Prop where
  told : sent = found.flatMap (·.1)
  targets : List.Forall₂ (TargetsOf R loader d path w t) groups found
  changed : R w t

/-- The targets of one statement, each with its identifier. -/
def targetPage (load : LoadPaths τ) (self : Loader) (d : Descriptor) (m : Model) (path : String)
    (keys : List Value) : Deed τ (List (Value × ObjectId)) := do
  let q ← Act.getsExcept fun w => self.targetQuery w.toEnv d m path keys
  let page ← q.fetch load .null self.registry
  let ids ← page.members.mapM fun o => Act.getsExcept fun w => w.requireProperty (.object o) "id"
  keysMustHash ids
  return ids.zip page.members

theorem made_targetPage {m : Model} (keys : List Value) :
    Made World.Grows (targetPage (τ := τ) (below depth) self d m path keys) :=
  (@Manner.targetPage _ Deed.making 0 _ _ _ _ _ (fun _ _ _ _ _ _ _ _ _ =>
    Deed.making_of_made (made_loadBelow _ _ _ _ _)) keys).1

theorem made_fetchTargets (target : Value) (members : List Value) :
    Made (τ := τ) World.Grows (fetchTargets (below depth) self d path target members) := by
  have made_ids : Made World.Grows (members.mapM fun o =>
      Deed.propertyOrNull (τ := τ) o (Descriptor.written d.idColumn)) :=
    .mapM fun o => Deed.made_propertyOrNull _ _
  refine (Made.getsExcept _).bind fun m => made_ids.bind fun ids => (made_keysMustHash _).bind fun _ =>
    (Made.ofExcept _).bind fun pieces => (Made.mapM made_targetPage).bind fun pages =>
      (Made.discard (Deed.made_adopt _)).bind fun _ => .mapM fun o => ?_
  exact (Deed.made_propertyOrNull _ _).bind fun _ => .pure _

/-- The fetch for one model taken apart: the identifiers that the objects name, the pages for the pieces of
these, the collection that the targets make, and what each object is given of it. -/
theorem carries_fetchTargets {target : Value} {members : List Value} {found : List (Value × Value)}
    (carries : Carries (fetchTargets (below depth) self d path target members) w sent (.ok found) t) :
    ∃ m ids pieces pages u, w.asModel target = .ok m ∧
      List.Forall₂ (fun o id => w.propertyOrNull o (Descriptor.written d.idColumn) = .ok id) members ids ∧
      chunks self.chunkSize (distinctKeys ids) = .ok pieces ∧ sent = pages.flatMap (·.1) ∧
      Stepwise (targetPage (below depth) self d m path) w pieces pages u ∧
      t = u.adopted ((pages.flatMap (·.2)).map (·.2)) ∧
      List.Forall₂ (fun o p => p.1 = o ∧ ∃ id, t.propertyOrNull o (Descriptor.written d.idColumn) = .ok id ∧
        p.2 = bearer (pages.flatMap (·.2)) id) members found := by
  obtain ⟨m, known, carries⟩ := Deed.carries_getsExcept_bind carries
  have made_reads : Made World.Grows (members.mapM fun o =>
      Deed.propertyOrNull (τ := τ) o (Descriptor.written d.idColumn)) :=
    .mapM fun o => Deed.made_propertyOrNull _ _
  obtain ⟨_, _, ids, w₁, rfl, gets, -, hashes⟩ := made_reads.ok_of_bind carries
  obtain ⟨rfl, rfl, read⟩ := Deed.carries_reads gets.carries
  obtain ⟨pieces, cut, fetches⟩ := Deed.carries_ofExcept_bind (carries_keysMustHash_bind hashes)
  obtain ⟨_, _, _, u, rfl, loops, -, adopts⟩ := (Made.mapM made_targetPage).ok_of_bind fetches
  obtain ⟨pages, rfl, rfl, steps⟩ := Made.stepwise made_targetPage loops.carries
  rw [← List.flatMap_def] at adopts
  obtain ⟨rfl, rfl, values⟩ := Deed.carries_adopted_reads adopts
  refine ⟨m, ids, pieces, pages, u, known, read, cut, by simp, steps, rfl, values.imp fun o p own => ?_⟩
  obtain ⟨id, read, rfl⟩ := own
  exact ⟨rfl, id, read, rfl⟩

/-- The fetch for a relation whose target depends on the row taken apart: the targets of the objects, and the
fetches for the models that they are filed under. -/
theorem carries_fetchMorphTo {objects values : List Value}
    (carries : Carries (fetchMorphTo (below depth) self d path objects) w sent (.ok values) t) :
    ∃ named found, List.Forall₂ (fun o f => w.targetFor d path o = .ok f) objects named ∧
      sent = found.flatMap (·.1) ∧
      Stepwise (fun group : Value × List Value => fetchTargets (below depth) self d path group.1 group.2)
        (w.warned (named.flatMap (·.2))) (filed [] (objects.zip (named.map (·.1)))) found t ∧
      values = objects.map fun o => (Value.lookup? o (found.flatMap (·.2)).reverse).getD .null := by
  have made_targets : Made World.Grows (targetsByTag (τ := τ) d path objects) :=
    (@Manner.targetsByTag _ Deed.making 0 d path _).1
  obtain ⟨_, _, groups, _, rfl, files, -, carries⟩ := made_targets.ok_of_bind carries
  obtain ⟨named, each, rfl, rfl, rfl⟩ := carries_targetsByTag files.carries
  have made_fetches (group : Value × List Value) :
      Made (τ := τ) World.Grows (fetchTargets (below depth) self d path group.1 group.2) :=
    made_fetchTargets group.1 group.2
  obtain ⟨_, _, _, u, rfl, loops, -, ends⟩ := (Made.mapM made_fetches).ok_of_bind carries
  obtain ⟨rfl, same, rfl⟩ := ends.silent (.ofExcept (.ok _) u)
  obtain rfl := Except.ok.inj same
  obtain ⟨found, rfl, rfl, steps⟩ := Made.stepwise made_fetches loops.carries
  exact ⟨named, found, each, by simp, steps, by rw [List.flatMap_def]⟩

/-- The targets of some objects, as far as their tags name any. -/
def Named (w : World τ) (d : Descriptor) (path : String) (ids : List ObjectId)
    (named : List (Option Value × List String)) : Prop :=
  List.Forall₂ (fun id f => w.targetFor d path (.object id) = .ok f) ids named

theorem Named.mem_zip_iff {ids : List ObjectId} {named : List (Option Value × List String)} {id : ObjectId}
    (each : Named w d path ids named) {target : Option Value} :
    (Value.object id, target) ∈ (ids.map Value.object).zip (named.map (·.1)) ↔
      id ∈ ids ∧ ∃ texts, w.targetFor d path (.object id) = .ok (target, texts) := by
  induction each with
  | nil => simp
  | cons own _ ih =>
    simp only [List.map_cons, List.zip_cons_cons, List.mem_cons, Prod.mk.injEq, Value.object.injEq, ih]
    constructor
    · rintro (⟨rfl, rfl⟩ | ⟨there, texts, named⟩)
      · exact ⟨.inl rfl, _, own⟩
      · exact ⟨.inr there, texts, named⟩
    · rintro ⟨rfl | there, texts, named⟩
      · exact .inl ⟨rfl, by rw [Except.ok.inj (own.symm.trans named)]⟩
      · exact .inr ⟨there, texts, named⟩

/-- The value that an object is given. -/
def given (found : List (Dialogue × List (Value × Value))) (id : ObjectId) : Value :=
  (Value.lookup? (.object id) (found.flatMap (·.2)).reverse).getD .null

section

variable (allows : World.Latitude R)
include allows

theorem TargetPages.later {group : Value × List Value} {pages : List (Dialogue × List (Value × ObjectId))}
    {t' : World τ} (h : TargetPages R self d path w t group pages) (changed : R t t') :
    TargetPages R self d path w t' group pages := by
  obtain ⟨m, w', ids, pieces, known, before, read, cut, each⟩ := h
  exact ⟨m, w', ids, pieces, known, before, read, cut,
    each.imp fun _ _ own => own.later allows (·.later (allows.grows changed)) changed⟩

theorem TargetPages.before {group : Value × List Value} {pages : List (Dialogue × List (Value × ObjectId))}
    {w₀ : World τ} (h : TargetPages R self d path w t group pages) (changed : R w₀ w) :
    TargetPages R self d path w₀ t group pages := by
  obtain ⟨m, w', ids, pieces, known, before, read, cut, each⟩ := h
  exact ⟨m, w', ids, pieces, (allows.grows changed).lookup ▸ known, allows.trans changed before, read, cut,
    each.imp fun _ _ own => own.before allows changed⟩

/-- The pages for the pieces of the identifiers, and the collection that the targets make. -/
theorem targetPages_adopted {target : Value} {members ids : List Value} {m : Model}
    {pieces : List (List Value)} {pages : List (Dialogue × List (Value × ObjectId))}
    (known : w.asModel target = .ok m)
    (nests : ∀ w', R w w' → ∀ keys q,
      self.targetQuery w'.toEnv d m path keys = .ok q → q.Nests R (below depth) self.registry)
    (read : List.Forall₂ (fun o id =>
      w.propertyOrNull o (Descriptor.written d.idColumn) = .ok id) members ids)
    (cut : chunks self.chunkSize (distinctKeys ids) = .ok pieces)
    (steps : Stepwise (targetPage (below depth) self d m path) w pieces pages t) :
    TargetPages R self d path w (t.adopted ((pages.flatMap (·.2)).map (·.2))) (target, members) pages ∧
      R w (t.adopted ((pages.flatMap (·.2)).map (·.2))) := by
  obtain ⟨each, changed⟩ := pages_of_stepwise allows steps
    (fun changed own => own.later (allows.grows changed)) fun keys _ s _ _ begun runs =>
      runs_page allows _ (fun q => Query.made_fetch (fun _ _ _ => made_loadBelow _ _ _ _ _) q _ _)
        (nests s begun keys) runs.carries
  have more := allows.adopted t ((pages.flatMap (·.2)).map (·.2))
  exact ⟨⟨m, w, ids, pieces, known, allows.refl w, read, cut, each.imp fun keys page own =>
    own.later allows (·.later (allows.grows more)) more⟩, allows.trans changed more⟩

/-- What the fetch for one model leaves behind. -/
theorem runs_fetchTargets {target : Value} {members : List Value} {found : List (Value × Value)}
    (nests : ∀ m, w.asModel target = .ok m → ∀ w', R w w' → ∀ keys q,
      self.targetQuery w'.toEnv d m path keys = .ok q → q.Nests R (below depth) self.registry)
    (carries : Carries (fetchTargets (below depth) self d path target members) w sent (.ok found) t) :
    ∃ pages, sent = pages.flatMap (·.1) ∧ TargetPages R self d path w t (target, members) pages ∧
      TargetsFound d w t (pages.flatMap (·.2)) members found ∧ R w t := by
  obtain ⟨m, ids, pieces, pages, u, known, read, cut, told, steps, rfl, values⟩ := carries_fetchTargets carries
  obtain ⟨own, changed⟩ := targetPages_adopted allows known (nests m known) read cut steps
  exact ⟨pages, told, own, ⟨_, allows.grows changed, .refl _, values⟩, changed⟩

theorem TargetsFound.later {related : List (Value × ObjectId)} {members : List Value}
    {found : List (Value × Value)} {t' : World τ} (h : TargetsFound d w t related members found)
    (changed : R t t') : TargetsFound d w t' related members found := by
  obtain ⟨w', before, after, each⟩ := h
  exact ⟨w', before, after.trans (allows.grows changed), each⟩

theorem TargetsOf.later {group : Value × List Value} {found : Dialogue × List (Value × Value)} {t' : World τ}
    (h : TargetsOf R self d path w t group found) (changed : R t t') :
    TargetsOf R self d path w t' group found := by
  obtain ⟨pages, told, own, each⟩ := h
  exact ⟨pages, told, own.later allows changed, each.later allows changed⟩

/-- What the fetch leaves behind for a relation whose target depends on the row. -/
theorem runs_fetchMorphTo {ids : List ObjectId} {values : List Value}
    (nests : ∀ id ∈ ids, ∀ target texts, w.targetFor d path (.object id) = .ok (some target, texts) →
      ∀ m, w.asModel target = .ok m → ∀ w', w.Grows w' → ∀ keys q,
        self.targetQuery w'.toEnv d m path keys = .ok q → q.Nests R (below depth) self.registry)
    (carries : Carries (fetchMorphTo (below depth) self d path (ids.map .object)) w sent (.ok values) t) :
    ∃ named found, Named w d path ids named ∧
      Dispatch R self d path (filed [] ((ids.map Value.object).zip (named.map (·.1))))
        (w.warned (named.flatMap (·.2))) t sent found ∧ values = ids.map (given found) := by
  obtain ⟨named, found, each, told, steps, rfl⟩ := carries_fetchMorphTo carries
  have each : Named w d path ids named := List.forall₂_map_left_iff.mp each
  have begun := w.grows_warned (named.flatMap (·.2))
  obtain ⟨changed, pages⟩ := steps.all (R := R)
    (Q := TargetsOf R self d path (w.warned (named.flatMap (·.2))))
    allows.refl allows.trans (fun changed own => own.later allows changed)
    fun group there s s' p before runs _ => by
      obtain ⟨_, absurd, -⟩ | ⟨o, pair⟩ := exists_of_mem_filed there
      · cases absurd
      obtain ⟨id, -, rfl⟩ := List.mem_map.mp (List.of_mem_zip pair).1
      obtain ⟨own, texts, target⟩ := each.mem_zip_iff.mp pair
      have until_s := begun.trans (allows.grows before)
      obtain ⟨pages, told, own, found, changed⟩ := runs_fetchTargets allows (fun m known w' later =>
        nests id own _ _ target m (until_s.lookup ▸ known) w' (until_s.trans (allows.grows later))) runs.carries
      exact ⟨changed, pages, told, own.before allows before, found.before (allows.grows before)⟩
  exact ⟨named, found, each, ⟨told, pages, changed⟩, List.map_map⟩

end

/-- What a value stands for that a model is told by. -/
theorem eq_model_of_same {v : Value} {id : ModelId} (h : v.same (.model id) = true) : v = .model id := by
  cases v <;> simp_all [Value.same, Value.toInt?]

/-- What stands for a model is the same value, wherever it is the same key. -/
theorem eq_of_same_of_asModel {l : Lookup} {v target : Value} {m : Model} (known : l.asModel v = .ok m)
    (same : target = v ∨ target.same v = true) : target = v := by
  obtain own | same := same
  · exact own
  · cases v with
    | model id => exact eq_model_of_same same
    | _ => cases known

variable {ids : List ObjectId} {named : List (Option Value × List String)}
  {found : List (Dialogue × List (Value × Value))} {id : ObjectId}

/-- What is found for an object is found where it is filed. -/
theorem Dispatch.filed_of_mem {groups : List (Value × List Value)}
    (h : Dispatch R self d path groups w t sent found) {v : Value}
    (there : (Value.object id, v) ∈ found.flatMap (·.2)) :
    ∃ group ∈ groups, .object id ∈ group.2 ∧ ∃ p ∈ found, ∃ pages, p.1 = pages.flatMap (·.1) ∧
      TargetPages R self d path w t group pages ∧ ∃ w' key, w.Grows w' ∧ w'.Grows t ∧
        w'.propertyOrNull (.object id) (Descriptor.written d.idColumn) = .ok key ∧
        v = bearer (pages.flatMap (·.2)) key := by
  obtain ⟨p, hp, own⟩ := List.mem_flatMap.mp there
  obtain ⟨group, hgroup, pages, told, targets, w', before, after, each⟩ := exists_of_mem_right h.targets hp
  obtain ⟨o, ho, rfl, key, read, rfl⟩ := exists_of_mem_right each own
  exact ⟨group, hgroup, ho, p, hp, pages, told, targets, w', key, before, after, read, rfl⟩

/-- An object without a target is given nothing; any other one is given the first of the objects found
for its target that bears its identifier. -/
theorem Dispatch.given_of_named (each : Named w d path ids named)
    (h : Dispatch R self d path (filed [] ((ids.map Value.object).zip (named.map (·.1))))
      (w.warned (named.flatMap (·.2))) t sent found) {target : Option Value} {texts : List String}
    (there : id ∈ ids) (own : w.targetFor d path (.object id) = .ok (target, texts)) :
    target = none ∧ given found id = .null ∨
      ∃ group ∈ filed [] ((ids.map Value.object).zip (named.map (·.1))), ∃ p ∈ found, ∃ pages,
        target = some group.1 ∧ .object id ∈ group.2 ∧ p.1 = pages.flatMap (·.1) ∧
        TargetPages R self d path (w.warned (named.flatMap (·.2))) t group pages ∧
        ∃ w' key, w.Grows w' ∧ w'.Grows t ∧
          w'.propertyOrNull (.object id) (Descriptor.written d.idColumn) = .ok key ∧
          given found id = bearer (pages.flatMap (·.2)) key := by
  unfold given
  cases looked : Value.lookup? (.object id) (found.flatMap (·.2)).reverse with
  | some v =>
    obtain ⟨k, listed, same⟩ := Value.exists_of_lookup? looked
    obtain rfl := Value.eq_of_same_of_isAtom rfl same
    obtain ⟨group, hgroup, member, p, hp, pages, told, targets, w', key, before, after, read, rfl⟩ :=
      h.filed_of_mem (List.mem_reverse.mp listed)
    obtain ⟨_, absurd, -⟩ | ⟨target', pair, equal⟩ := mem_filed hgroup member
    · cases absurd
    obtain ⟨-, texts', own'⟩ := each.mem_zip_iff.mp pair
    have known : target' = group.1 := by
      obtain ⟨m, -, -, -, known, -⟩ := targets
      exact eq_of_same_of_asModel known equal
    obtain ⟨rfl, -⟩ := Prod.mk.inj (Except.ok.inj (own.symm.trans own'))
    exact .inr ⟨group, hgroup, p, hp, pages, by rw [known], member, told, targets, w', key,
      (w.grows_warned _).trans before, after, read, rfl⟩
  | none =>
    refine .inl ⟨?_, rfl⟩
    cases target with
    | none => rfl
    | some target =>
      have pair := each.mem_zip_iff.mpr ⟨there, texts, own⟩
      obtain ⟨group, hgroup, member⟩ := @exists_filed [] _ _ (.inr ⟨target, pair⟩)
      obtain ⟨p, hp, pages, told, -, w', -, -, found⟩ := exists_of_mem_right h.targets.flip hgroup
      obtain ⟨pair, hpair, same, -⟩ := exists_of_mem_right found.flip member
      have apart := Matches.lookup?_eq_none_iff.mp looked pair
        (List.mem_reverse.mpr (List.mem_flatMap.mpr ⟨p, hp, hpair⟩))
      have self : (Value.object id).same (.object id) = true := by simp [Value.same]
      rw [same, self] at apart
      cases apart

end Loader

end Relata
