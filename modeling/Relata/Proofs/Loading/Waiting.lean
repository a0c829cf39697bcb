import Mathlib.Data.Set.List
import Relata.Proofs.Loading.Manner
import Relata.Proofs.Process.Flagged
import Relata.Proofs.Store.Tables

/-!
Objects that wait for a load. Loading marks the objects that it fetches a relation for, and whether it
succeeds, fails or is cancelled, it takes the mark off each of them; other loads may do so before. So
the mark of one relation of one object is a flag, and every way of loading minds it: between the two it
is on its way to concluding a fetch for that object.
-/

namespace Relata

open Relation (ReflTransGen)
open Act (Meets Ends)
open Process (byLaw)

namespace SlotChange

/-- The change takes the mark of the relation off. -/
def Lowers (name : String) : SlotChange → Prop
  | set other _ | forget other | abandon other => other = name
  | begin_ _ => False

end SlotChange

namespace Entity

variable {e : Entity} {name : String} {c : SlotChange}

theorem state_onEntity_ne_loading (h : c.Lowers name) :
    (c.onEntity e).state (.text name) ≠ .loading := by
  cases c with
  | begin_ other => exact h.elim
  | set other v =>
    obtain rfl : other = name := h
    simp [SlotChange.onEntity, state_setRelation_text]
  | forget other =>
    obtain rfl : other = name := h
    simp [SlotChange.onEntity, state_forgetRelation_text]
  | abandon other =>
    obtain rfl : other = name := h
    rw [SlotChange.onEntity, state_abandonLoading_text]
    cases there : (e.value? (.text other)).isSome with
    | true => simp [state_eq_loaded_iff.mpr there]
    | false => simp

/-- Only beginning to load a relation marks it. -/
theorem state_of_onEntity (h : c ≠ .begin_ name)
    (marked : (c.onEntity e).state (.text name) = .loading) : e.state (.text name) = .loading := by
  by_cases lowers : c.Lowers name
  · exact absurd marked (state_onEntity_ne_loading lowers)
  · revert marked
    cases c with
    | set other v =>
      rw [SlotChange.onEntity, state_setRelation_text, if_neg (Ne.symm lowers)]
      exact fun marked => marked
    | forget other =>
      rw [SlotChange.onEntity, state_forgetRelation_text, if_neg (Ne.symm lowers)]
      exact fun marked => marked
    | abandon other =>
      rw [SlotChange.onEntity, state_abandonLoading_text, if_neg fun own => lowers own.1.symm]
      exact fun marked => marked
    | begin_ other =>
      rw [SlotChange.onEntity, state_beginLoading_text, if_neg fun own => h (by rw [own.1])]
      exact fun marked => marked

theorem state_of_all {changes : List SlotChange} (h : ∀ c ∈ changes, c ≠ .begin_ name)
    (marked : (SlotChange.all changes e).state (.text name) = .loading) :
    e.state (.text name) = .loading := by
  induction changes generalizing e with
  | nil => exact marked
  | cons c rest ih =>
    exact state_of_onEntity (h c (.head _)) (ih (fun c there => h c (.tail _ there)) marked)

end Entity

namespace World

variable {τ : Type} {w w' : World τ} {id : ObjectId} {name : String}

/-- The relation of the object is marked as being loaded. -/
def Marked (id : ObjectId) (name : String) (w : World τ) : Prop :=
  ∃ e, w.object? id = some e ∧ e.state (.text name) = .loading

/-- The world after changes to relations of objects, one after the other. -/
def changed (w : World τ) (changes : List (ObjectId × SlotChange)) : World τ :=
  changes.foldl (fun w c => w.modified c.1 c.2.onEntity) w

theorem touched_modified (w : World τ) (id : ObjectId) {c : SlotChange} (plain : c.Plain) :
    w.Touched (w.modified id c.onEntity) := .one [c] (by simpa using plain)

theorem marked_of_untouched (same : w.Untouched w') (h : w'.Marked id name) : w.Marked id name := by
  obtain ⟨e, there, marked⟩ := h
  have slots := same.slots id
  rw [slots_of_object? there] at slots
  cases before : w.object? id with
  | none =>
    rw [slotsOf, before] at slots
    simp [Entity.state, Entity.slot?, slots, Value.lookup?] at marked
  | some e₀ =>
    rw [slots_of_object? before] at slots
    refine ⟨e₀, before, ?_⟩
    rwa [Entity.state, Entity.slot?, ← slots]

theorem marked_of_modified {other : ObjectId} {f : Entity → Entity}
    (quiet : other = id → ∀ e, (f e).state (.text name) = .loading → e.state (.text name) = .loading)
    (h : (w.modified other f).Marked id name) : w.Marked id name := by
  obtain ⟨e, there, marked⟩ := h
  rw [object?_modified] at there
  split at there
  · next own =>
    obtain ⟨e₀, before, rfl⟩ := Option.map_eq_some_iff.mp there
    exact ⟨e₀, before, quiet own e₀ marked⟩
  · exact ⟨e, there, marked⟩

theorem not_marked_of_lowers (w : World τ) {c : SlotChange} (h : c.Lowers name) :
    ¬ (w.modified id c.onEntity).Marked id name := by
  rintro ⟨e, there, marked⟩
  rw [object?_modified, if_pos rfl] at there
  obtain ⟨e₀, -, rfl⟩ := Option.map_eq_some_iff.mp there
  exact Entity.state_onEntity_ne_loading h marked

/-- Changes none of which marks the relation, and one of which takes the mark off, leave it off. -/
theorem not_marked_changed {changes : List (ObjectId × SlotChange)}
    (quiet : ∀ c ∈ changes, c.2 ≠ .begin_ name)
    (lowers : ¬ w.Marked id name ∨ ∃ c ∈ changes, c.1 = id ∧ c.2.Lowers name) :
    ¬ (w.changed changes).Marked id name := by
  induction changes generalizing w with
  | nil => exact lowers.resolve_right (by simp)
  | cons c rest ih =>
    refine ih (fun c there => quiet c (.tail _ there)) ?_
    obtain down | ⟨c', there, own, lowers⟩ := lowers
    · refine .inl fun marked => down (marked_of_modified (fun _ _ => ?_) marked)
      exact Entity.state_of_onEntity (quiet c (.head _))
    · rcases List.mem_cons.mp there with rfl | later
      · exact .inl (own ▸ not_marked_of_lowers w lowers)
      · exact .inr ⟨c', later, own, lowers⟩

theorem later_changed {changes : List (ObjectId × SlotChange)} (plain : ∀ c ∈ changes, c.2.Plain)
    (h : w.Plain) : (w.changed changes).Plain ∧ w.objects.size ≤ (w.changed changes).objects.size := by
  induction changes generalizing w with
  | nil => exact ⟨h, Nat.le_refl _⟩
  | cons c rest ih =>
    have touched := touched_modified w c.1 (plain c (.head _))
    obtain ⟨kept, grown⟩ := ih (fun c there => plain c (.tail _ there)) (h.touched touched)
    exact ⟨kept, touched.size_le.trans grown⟩

end World

namespace Deed

variable {τ : Type} {pact : Pact (World τ)} {w : World τ}

/-- Changes to relations of objects are made one after the other, and nothing comes between. -/
theorem ends_changes {changes : List (ObjectId × SlotChange)}
    (allowed : ∀ c ∈ changes, ∀ w, pact.guar w (w.modified c.1 c.2.onEntity)) :
    Ends pact (changes.forM fun c => modifyEntity (.object c.1) c.2.onEntity) w
      fun r t => r = .ok () ∧ t = w.changed changes := by
  induction changes generalizing w with
  | nil => exact .pure ⟨rfl, rfl⟩
  | cons c rest ih =>
    refine Meets.bind (Q := fun r t => r = .ok () ∧ t = w.modified c.1 c.2.onEntity)
      (.modify (allowed c (.head _) w) ⟨rfl, rfl⟩) (fun _ t there => ?_) fun _ _ absurd =>
        nomatch absurd.1
    exact there.2 ▸ ih fun c later => allowed c (.tail _ later)

end Deed

namespace Manner

variable {τ : Type} {pact : Pact (World τ)}

/-- Those who may do all that leaves relations alone, beside others who change the relations of one
object at a time. -/
structure Slack (pact : Pact (World τ)) : Prop where
  untouched : ∀ {w w' : World τ}, w.Untouched w' → pact.guar w w'
  rely : ∀ {w w' : World τ}, pact.rely w w' → ReflTransGen World.Touched w w'
  waits : ∀ w, pact.waits w

theorem plain_later {w w' : World τ} (h : w.Plain) (later : ReflTransGen World.Touched w w') :
    w'.Plain ∧ w.objects.size ≤ w'.objects.size := by
  induction later with
  | refl => exact ⟨h, Nat.le_refl _⟩
  | tail _ touched ih => exact ⟨ih.1.touched touched, ih.2.trans touched.size_le⟩

theorem Slack.upholds (h : Slack pact) : Upholds pact World.Plain fun _ v => v.Plain where
  own_mono _ := id
  rely plain later := plain_later plain (h.rely later)
  waits {w} _ := h.waits w
  extended {w _} plain bare :=
    have same := w.untouched_extended bare
    ⟨h.untouched same, plain.untouched same, trivial⟩
  adopted {_ w members} plain _ _ :=
    have same := w.untouched_adopted members
    ⟨h.untouched same, plain.untouched same⟩
  warned {w} warnings plain :=
    have same : w.Untouched { w with warnings := warnings } := .of_objects rfl
    ⟨h.untouched same, plain.untouched same⟩

theorem slack_byLaw : Slack (byLaw (World.Touched (τ := τ))) := ⟨.none, id, fun _ => trivial⟩

section Upholding

variable (slack : Slack pact) {n : Nat}
include slack

/-- The manner of what leaves relations alone, but for the changes that it may make besides. -/
abbrev leaving : Manner τ := upholding slack.upholds

theorem keeps_change {c : SlotChange} (plain : c.Plain) {v : Value}
    (allowed : ∀ id, v = .object id → ∀ w, pact.guar w (w.modified id c.onEntity)) :
    (leaving slack).Keeps n (Deed.modifyEntity v c.onEntity) fun _ _ => True := by
  intro w kept le
  cases v with
  | object id =>
    have touched := w.touched_modified id plain
    exact .modify (allowed id rfl w)
      (.of (kept.touched touched) (le.trans touched.size_le) fun _ _ => trivial)
  | _ => exact .throw (.of kept le fun _ _ => trivial)

theorem keeps_markObjects (registry : RegistryId) (objects : List Value) (names : Names) :
    (leaving slack).Keeps n (Deed.markObjects registry objects names) fun _ _ => True := by
  refine (leaving slack).markObjects (fun m row w kept le => ?_) objects
  refine Meets.bind (Q := fun _ w' => w'.Plain ∧ m ≤ w'.objects.size) ?_
    (fun outcome w' there => ?_) fun _ _ there => ⟨there.1, there.2, fun _ absurd => nomatch absurd⟩
  · exact .modifyGet (slack.untouched (.of_objects rfl)) ⟨kept.untouched (.of_objects rfl), le⟩
  · exact .ofExcept (.of there.1 there.2 fun _ _ => trivial)

end Upholding

/-- What relations of plain values lead to are plain values. -/
theorem children_plain (M : Manner τ) (seen : ∀ w, M.seen w → w.Plain)
    (own : ∀ {n v}, v.Plain → M.own n v) {n : Nat} (objects : List Value) (name : String) :
    M.Keeps n (Loader.children objects name) fun m below => ∀ v ∈ below, M.own m v := by
  refine M.bind (M.mapM (Q := fun _ (v : Value) => ∀ x ∈ v.held, x.Plain) (fun _ h => h) fun _ _ o _ =>
    M.getsExcept fun w hw v found => ?_) fun _ _ values plain => M.gets_bind fun w _ => ?_
  · cases o with
    | object id =>
      simp only [Loader.relationOf] at found
      split at found
      · next e there =>
        split at found
        · next v' held =>
          cases found
          exact seen w hw id e there name _ held
        · cases found
      · cases found
    | _ => cases found
  · refine M.pure fun x there => ?_
    obtain ⟨v, hv, hx⟩ := List.mem_flatMap.mp there
    refine own ?_
    have held := plain.2 v hv
    cases v with
    | collection id =>
      obtain ⟨o, -, rfl⟩ := List.mem_map.mp hx
      trivial
    | null => cases hx
    | list items => exact held x hx
    | _ => exact held x hx

/-- Loading changes relations of one object at a time. -/
theorem loads_byLaw : (leaving (τ := τ) slack_byLaw).Loads where
  begin {_ _} _ name := keeps_change slack_byLaw (c := .begin_ name) trivial fun id _ w =>
    w.touched_modified id trivial
  abandon {_ _} _ name := keeps_change slack_byLaw (c := .abandon name) trivial fun id _ w =>
    w.touched_modified id trivial
  settle own _ among name given := (leaving slack_byLaw).settle
    (fun {_ _ x} _ held name => keeps_change slack_byLaw (c := .set name x) held fun id _ w =>
      w.touched_modified id held)
    (fun _ registry objects names => keeps_markObjects slack_byLaw registry objects names)
    own among name given
  children {_ objects} _ name := children_plain _ (fun _ => id) (fun h => h) objects name

end Manner

namespace Loader

variable {τ : Type}

/-- A load of the relation concludes a fetch for the objects that wait for it. -/
def Concludes (self : Loader) (name : String) (pending : List Value) (p : Process (World τ)) : Prop :=
  ∃ outcome last, p = self.conclude (.text name) pending outcome last

/-- The mark of a relation of an object: whoever puts it there is on its way to concluding a fetch
for that object. -/
def mark (id : ObjectId) (name : String) : Flag (World τ) where
  law := World.Touched
  up := World.Marked id name
  ways C := ∃ (self : Loader) (pending : List Value), .object id ∈ pending ∧
    ∀ p w, C p w → self.Concludes name pending p

end Loader

namespace Manner

variable {τ : Type} {flag : Flag (World τ)} {I : World τ → Prop} {own : Nat → Value → Prop}

/-- The manner of what minds a flag, and upholds an invariant beside others. -/
def minding (h : Upholds flag.quiet I own) : Manner τ where
  Keeps n x P := ∀ w, I w → n ≤ w.objects.size → x.Minds flag w (Upheld I n P)
  own := own
  seen := I
  own_mono := h.own_mono
  ofExcept hr w hw le := .of_ends ((upholding h).ofExcept hr w hw le)
  bind hx hf w hw le := by
    refine (hx w hw le).bind (fun a w' there => ?_) fun _ _ there => there.failed
    obtain ⟨m, later, within, ha⟩ := there.2.2 a rfl
    exact (hf m later a ha w' there.1 within).imp fun _ _ end_ => end_.after later
  attempt hx w hw le := .attempt ((hx w hw le).imp fun _ _ there => there.attempted)
  getsExcept hf w hw le := .of_ends ((upholding h).getsExcept hf w hw le)
  newObject bare w hw le := .of_ends ((upholding h).newObject bare w hw le)
  adopt members w hw le := .of_ends ((upholding h).adopt members w hw le)
  warn n text w hw le := .of_ends ((upholding h).warn n text w hw le)
  execute passed connection w hw le := .of_ends ((upholding h).execute passed connection w hw le)

end Manner

namespace Loader

variable {τ : Type} {id : ObjectId} {name : String}

/-- Values that are all objects, or of which none has a model in any world. -/
def Apt (τ : Type) (objects : List Value) : Prop :=
  (∃ ids : List ObjectId, objects = ids.map .object) ∨
    ∀ v ∈ objects, ∀ w : World τ, w.modelOfValue? v = none

/-- A list of objects is one of their numbers. -/
theorem objects_of_all {objects : List Value} (h : ∀ v ∈ objects, ∃ i, v = .object i) :
    ∃ ids : List ObjectId, objects = ids.map .object := by
  have there : objects ∈ Set.range (List.map Value.object) := by
    rw [Set.range_list_map]
    exact fun v hv => (h v hv).imp fun _ same => same.symm
  exact there.imp fun _ same => same.symm

theorem className_ne_object (env : Env) {v : Value} (plain : v.Plain) (other : ∀ id, v ≠ .object id) :
    env.className v ≠ "object" := by
  cases v with
  | object id => exact absurd rfl (other id)
  | relation owner n =>
    simp only [Env.className]
    split <;> decide
  | _ => first | exact plain.elim | simp [Env.className]

/-- Plain values of one class are apt to be loaded together. -/
theorem apt_of_plain {w : World τ} {objects : List Value} (plain : ∀ v ∈ objects, v.Plain)
    (group : ClassKey × List Value) (there : group ∈ byClass w.toEnv objects) : Apt τ group.2 := by
  have uniform := (uniform_byClass group there).2
  have own : ∀ v ∈ group.2, v.Plain := fun v hv => plain v (mem_byClass.mp ⟨group, there, hv⟩).1
  by_cases some_ : ∃ i, .object i ∈ group.2
  · obtain ⟨i, hi⟩ := some_
    have all : ∀ v ∈ group.2, ∃ j, v = .object j := by
      intro v hv
      by_contra none
      have other : ∀ j, v ≠ .object j := fun j same => none ⟨j, same⟩
      have named : classKey w.toEnv v = .named (w.className v) := by
        cases v with
        | object j => exact absurd rfl (other j)
        | _ => rfl
      have same := (uniform v hv).trans (uniform _ hi).symm
      rw [named] at same
      simp only [classKey] at same
      split at same
      · cases same
      · exact className_ne_object _ (own v hv) other (ClassKey.named.inj same)
    exact .inl (Loader.objects_of_all all)
  · refine .inr fun v hv w' => ?_
    cases v with
    | object j => exact absurd ⟨j, hv⟩ some_
    | _ => rfl

end Loader

namespace Manner

variable {τ : Type} {id : ObjectId} {name : String}

theorem slack_quiet (id : ObjectId) (name : String) : Slack (Loader.mark (τ := τ) id name).quiet :=
  ⟨fun same => ⟨.none same, World.marked_of_untouched same⟩, fun later => later, fun _ => trivial⟩

variable (τ id name) in
/-- The manner of what minds the mark of a relation of an object. -/
abbrev heeding : Manner τ := minding (slack_quiet (τ := τ) id name).upholds

variable {n : Nat}

theorem heeds_of_leaving {α : Type} {x : Deed τ α} {P : Nat → α → Prop}
    (h : (leaving (slack_quiet id name)).Keeps n x P) : (heeding τ id name).Keeps n x P :=
  fun w hw le => .of_ends (h w hw le)

/-- Relations may be changed if the mark is not put there by it. -/
theorem heeds_change {c : SlotChange} (plain : c.Plain) {v : Value}
    (quiet : v ≠ .object id ∨ c ≠ .begin_ name) :
    (heeding τ id name).Keeps n (Deed.modifyEntity v c.onEntity) fun _ _ => True := by
  refine heeds_of_leaving (keeps_change _ plain fun other same w => ⟨w.touched_modified other plain, ?_⟩)
  refine World.marked_of_modified fun own _ => Entity.state_of_onEntity ?_
  exact quiet.resolve_left (not_not_intro (own ▸ same))

theorem heeds_markObjects (registry : RegistryId) (objects : List Value) (names : Names) :
    (heeding τ id name).Keeps n (Deed.markObjects registry objects names) fun _ _ => True :=
  heeds_of_leaving (keeps_markObjects _ registry objects names)

theorem heeds_settle {objects values : List Value}
    (among : ∀ x ∈ values, ∀ y ∈ x.held, y.Plain) (own : ∀ v ∈ objects, v.Plain) (other : String)
    (given : Value) :
    (heeding τ id name).Keeps n (Loader.settle (.text other) given objects values) fun _ _ => True :=
  (heeding τ id name).settle
    (fun {_ _ x} _ held other => heeds_change (c := .set other x) held (.inr (by simp)))
    (fun _ registry objects names => heeds_markObjects registry objects names) own among other given

/-- A load that the object does not wait for leaves its mark alone. -/
theorem heeds_loadPending_aside {load : LoadPaths τ} (tends : (heeding τ id name).Tends load)
    {loader : Loader} {d : Descriptor} {m : Model} {path other : String} {pending : List Value}
    (plain : ∀ v ∈ pending, v.Plain) (aside : .object id ∉ pending ∨ other ≠ name) :
    (heeding τ id name).Keeps n (Loader.loadPending load loader d m path (.text other) pending)
      fun _ _ => True := by
  let M := heeding τ id name
  refine M.loadPending tends.fetches _ (fun _ _ v there => ?_) fun _ _ outcome found => ?_
  · refine heeds_change (c := .begin_ other) trivial (aside.imp (fun apart own => ?_) fun apart own => ?_)
    · exact apart (own ▸ there)
    · exact apart (SlotChange.begin_.inj own)
  · cases outcome with
    | error e =>
      exact M.bind (M.forM fun _ _ v _ => heeds_change (c := .abandon other) trivial (.inr (by simp)))
        fun _ _ _ _ => M.throw e
    | ok values => exact heeds_settle (found values rfl).2 plain other loader.registry

/-- Concluding a fetch takes the mark off an object that waited for it. -/
theorem lowers_conclude {loader : Loader} {ids : List ObjectId} (waits : id ∈ ids)
    {outcome : Except Error (List Value)} {w : World τ} (kept : w.Plain) (le : n ≤ w.objects.size)
    (fits : ∀ values, outcome = .ok values → values.length = ids.length ∧
      ∀ v ∈ values, ∀ x ∈ v.held, x.Plain)
    {last : Except Error Unit → Process (World τ)}
    (next : ∀ r t, Upheld World.Plain n (fun _ _ => True) r t →
      (last r).Minds (Loader.mark id name) false t) :
    (loader.conclude (.text name) (ids.map .object) outcome last).Minds (Loader.mark id name) true w := by
  have changes {changes : List (ObjectId × SlotChange)} (plain : ∀ c ∈ changes, c.2.Plain) :
      Ends (Loader.mark id name).brisk
        (changes.forM fun c => Deed.modifyEntity (.object c.1) c.2.onEntity) w
        fun r t => r = .ok () ∧ t = w.changed changes :=
    Deed.ends_changes fun c there w => w.touched_modified c.1 (plain c there)
  have later {changes : List (ObjectId × SlotChange)} (plain : ∀ c ∈ changes, c.2.Plain) :=
    (w.later_changed plain kept).imp_right le.trans
  cases outcome with
  | error e =>
    let abandoned := ids.map fun i => (i, SlotChange.abandon name)
    have plain : ∀ c ∈ abandoned, c.2.Plain := by simp [abandoned, SlotChange.Plain]
    have down : ¬ (w.changed abandoned).Marked id name :=
      World.not_marked_changed (by simp [abandoned])
        (.inr ⟨(id, .abandon name), List.mem_map_of_mem waits, rfl, rfl⟩)
    have loop := changes plain
    simp only [abandoned, List.forM_eq_forM, List.forM_map] at loop
    simp only [Loader.conclude, List.forM_eq_forM, List.forM_map]
    refine Act.Minds.lowers loop fun r t ended => ?_
    obtain ⟨rfl, rfl⟩ := ended
    exact .lowered down (next _ _ ⟨(later plain).1, (later plain).2, fun _ absurd => nomatch absurd⟩)
  | ok values =>
    obtain ⟨length, held⟩ := fits values rfl
    let given := (ids.zip values).map fun p => (p.1, SlotChange.set name p.2)
    have plain : ∀ c ∈ given, c.2.Plain := by
      intro c there
      obtain ⟨p, hp, rfl⟩ := List.mem_map.mp there
      exact held p.2 (List.of_mem_zip hp).2
    have down : ¬ (w.changed given).Marked id name := by
      refine World.not_marked_changed (fun c there => ?_) (.inr ?_)
      · obtain ⟨p, -, rfl⟩ := List.mem_map.mp there
        simp
      rw [← List.map_fst_zip length.ge] at waits
      obtain ⟨p, hp, rfl⟩ := List.mem_map.mp waits
      exact ⟨_, List.mem_map_of_mem hp, rfl, rfl⟩
    have loop := changes plain
    simp only [given, List.forM_eq_forM, List.forM_map] at loop
    simp only [Loader.conclude, Loader.settle, List.zip_map_left, List.forM_eq_forM, List.forM_map]
    refine Act.Minds.lowers loop fun r t ended => ?_
    obtain ⟨rfl, rfl⟩ := ended
    refine .lowered down ?_
    let M := heeding τ id name
    have marks : M.Keeps n (Act.ofExcept (Deed.registryId loader.registry) >>= fun registry =>
        Deed.markObjects registry (ids.map .object) [.ok (.text name)]) fun _ _ => True :=
      M.ofExcept_bind fun registry _ => heeds_markObjects registry _ _
    exact marks _ (later plain).1 (later plain).2 last next

/-- A load that the object waits for is on its way to concluding its fetch from its first step on. -/
theorem heeds_loadPending {depth : Nat} {loader : Loader} {d : Descriptor} {m : Model} {path : String}
    {ids : List ObjectId} (waits : id ∈ ids) :
    (heeding τ id name).Keeps n (Loader.loadPending (Loader.below depth) loader d m path (.text name)
      (ids.map .object)) fun _ _ => True := by
  let L := leaving (τ := τ) slack_byLaw
  intro w kept le last next
  let C (p : Process (World τ)) (t : World τ) : Prop := t.Plain ∧ n ≤ t.objects.size ∧ ∃ outcome,
    (∀ values, outcome = .ok values → values.length = ids.length ∧
      ∀ v ∈ values, ∀ x ∈ v.held, x.Plain) ∧
    p = loader.conclude (.text name) (ids.map .object) outcome last
  have begins : Ends (byLaw World.Touched) ((ids.map Value.object).forM fun o =>
      Deed.modifyEntity o (·.beginLoading (.text name))) w fun r t =>
        r = .ok () ∧ t.Plain ∧ w.objects.size ≤ t.objects.size := by
    let begun := ids.map fun i => (i, SlotChange.begin_ name)
    have plain : ∀ c ∈ begun, c.2.Plain := by simp [begun, SlotChange.Plain]
    have loop : Ends (byLaw World.Touched)
        (begun.forM fun c => Deed.modifyEntity (.object c.1) c.2.onEntity) w fun r t =>
          r = .ok () ∧ t = w.changed begun :=
      Deed.ends_changes fun c there w => w.touched_modified c.1 (plain c there)
    simp only [begun, List.forM_eq_forM, List.forM_map] at loop ⊢
    refine loop.imp fun r t ended => ?_
    obtain ⟨rfl, rfl⟩ := ended
    exact ⟨rfl, w.later_changed plain kept⟩
  have tends : L.Tends (Loader.below depth) := fun _ loader _ paths own =>
    loads_byLaw.loadBelow depth loader own paths _
  have fetching := @Manner.fetching _ L n _ loader d m path tends.fetches (ids.map .object)
  rw [Loader.loadPending_eq, ← bind_assoc]
  refine Act.Minds.raise (C := C) ⟨loader, ids.map .object, List.mem_map_of_mem waits, ?_⟩ ?_ ?_
  · rintro p t ⟨-, -, outcome, -, rfl⟩
    exact ⟨outcome, last, rfl⟩
  · refine begins.bind (fun _ t there => ?_) fun _ _ absurd => nomatch absurd.1
    refine .attempt ((fetching t there.2.1 (le.trans there.2.2)).imp fun outcome u fetched => ?_)
    refine ⟨outcome, rfl, fetched.1, fetched.2.1, outcome, fun values ended => ?_, rfl⟩
    obtain ⟨_, -, -, length, held⟩ := fetched.2.2 values ended
    exact ⟨length.trans (List.length_map _), held⟩
  · rintro p t ⟨kept, le, outcome, fits, rfl⟩
    exact lowers_conclude waits kept le fits next

/-- Loading minds the mark of every relation of every object. -/
theorem pends_heeding (id : ObjectId) (name : String) :
    (heeding τ id name).Pends (Loader.Apt τ) where
  apt _ own group there := Loader.apt_of_plain own group there
  pend {_ _ _ _ _ _ other w _ objects pending} tends apt own known among := by
    obtain ⟨ids, rfl⟩ | none := apt
    · obtain ⟨pending, rfl⟩ := Loader.objects_of_all fun v there =>
        (List.mem_map.mp (among v there)).imp fun _ same => same.2.symm
      by_cases waits : id ∈ pending ∧ other = name
      · obtain ⟨waits, rfl⟩ := waits
        exact heeds_loadPending waits
      · refine heeds_loadPending_aside tends (fun v there => own v (among v there)) ?_
        rw [← not_and_or]
        exact fun both => waits ⟨by simpa using both.1, both.2⟩
    · have unknown : w.modelOfValue? (objects.headD .null) = Option.none := by
        cases objects with
        | nil => rfl
        | cons v rest => exact none v (.head _) w
      rw [Loader.described, unknown] at known
      dsimp only at known
      split at known <;> cases known
  children {_ objects} _ other := children_plain _ (fun _ plain => plain) (fun h => h) objects other

end Manner

end Relata
