import Relata.Proofs.Loading.Growth
import Relata.Proofs.Loading.Manner
import Relata.Proofs.Process.Beside
import Relata.Proofs.Sql.Placeholders

/-!
What loading is made of: results and errors, reads of the world, changes to it, and statements
handed over as the guard let them through. Whatever is put together from these pieces sends only
what the guard let through, and changes the world only as its pieces do; the changes are left as a
relation `R` between a world and a later one. The functions that fetch and load are of this manner.
-/

namespace Relata

open Sql (Statement Fragment)

/-- A request that carries a statement as the guard let it through. -/
def Request.Checked (r : Request) : Prop :=
  ∃ (s : Statement) (context : String) (f : Fragment),
    s.checked context = .ok f ∧ r.sql = f.text ∧ r.params = f.values

namespace Deed

variable {τ : Type} {α β : Type} {R : World τ → World τ → Prop}

/-- A deed made of such pieces. -/
inductive Made (R : World τ → World τ → Prop) : {α : Type} → Deed τ α → Prop
  | ofExcept {α : Type} (r : Except Error α) : Made R (Act.ofExcept r)
  | bind {α β : Type} {x : Deed τ α} {f : α → Deed τ β} :
    Made R x → (∀ a, Made R (f a)) → Made R (x >>= f)
  | attempt {α : Type} {x : Deed τ α} : Made R x → Made R x.attempt
  | getsExcept {α : Type} (f : World τ → Except Error α) : Made R (Act.getsExcept f)
  | modifyGet {α : Type} (f : World τ → α × World τ) :
    (∀ w, R w (f w).2) → Made R (Act.modifyGet f)
  | ask (r : Request) : r.Checked → Made R (Act.ask r)

namespace Made

theorem pure (a : α) : Made R (Pure.pure a : Deed τ α) := ofExcept (.ok a)

theorem throw (e : Error) : Made R (MonadExcept.throw e : Deed τ α) := ofExcept (.error e)

theorem gets (f : World τ → α) : Made R (Act.gets f) := getsExcept fun w => .ok (f w)

theorem modify {f : World τ → World τ} (h : ∀ w, R w (f w)) : Made R (Act.modify f) :=
  modifyGet (fun w => ((), f w)) h

theorem map {x : Deed τ α} (f : α → β) (hx : Made R x) : Made R (f <$> x) :=
  hx.bind fun a => pure (f a)

theorem discard {x : Deed τ α} (hx : Made R x) : Made R (discard x) := hx.map _

/-- What follows a result that may be an error is only reached with the result. -/
theorem ofExcept_bind {r : Except Error α} {f : α → Deed τ β} (h : ∀ a, r = .ok a → Made R (f a)) :
    Made R (Act.ofExcept r >>= f) := by
  cases r with
  | error e => exact ofExcept (.error e)
  | ok a => exact h a rfl

theorem mapM {xs : List α} {f : α → Deed τ β} (h : ∀ a, Made R (f a)) : Made R (xs.mapM f) := by
  induction xs with
  | nil => exact pure []
  | cons a rest ih =>
    rw [List.mapM_cons]
    exact (h a).bind fun b => ih.bind fun bs => pure (b :: bs)

theorem forM {xs : List α} {f : α → Deed τ PUnit} (h : ∀ a, Made R (f a)) : Made R (xs.forM f) := by
  induction xs with
  | nil => exact pure ()
  | cons a rest ih => exact (h a).bind fun _ => ih

/-- A deed made of such pieces sends only what the guard let through. -/
theorem sendsOnly {x : Deed τ α} (h : Made R x) : x.SendsOnly Request.Checked := by
  induction h with
  | ofExcept r => exact .ofExcept r
  | bind _ _ ihx ihf => exact ihx.bind ihf
  | attempt _ ih => exact ih.attempt
  | getsExcept f => exact .getsExcept f
  | modifyGet f _ => exact .modifyGet f
  | ask r h => exact .ask h

end Made

/-! The pieces that fetching and loading are made of, and the functions themselves. -/

/-- A relation between a world and a later one that allows the changes that loading makes. -/
structure Allows (R : World τ → World τ → Prop) : Prop where
  newObject : ∀ w e, R w { w with objects := w.objects.push e }
  modified : ∀ w id {f}, Entity.KeepsColumns f → R w { w with objects := w.objects.modify id f }
  adopted : ∀ w members, R w (w.adopted members)
  warned : ∀ w text, R w { w with warnings := w.warnings ++ [text] }
  marked : ∀ w registry key names,
    R w (w.remarked registry ((w.registryOf registry).marks.mark key names).1)

/-- Marks are kept in registries, and nowhere else. -/
theorem made_changeMarks {id : RegistryId} {f : Marks → Marks × Except Error α}
    (keeps : ∀ w : World τ, R w (w.remarked id (f (w.registryOf id).marks).1)) :
    Made R (changeMarks id f) :=
  (Made.modifyGet _ fun w => keeps w).bind fun outcome => .ofExcept outcome

theorem made_markObjects {registry : RegistryId} {names : Names}
    (keeps : ∀ (w : World τ) key, R w (w.remarked registry ((w.registryOf registry).marks.mark key names).1))
    (objects : List Value) : Made R (markObjects registry objects names) := by
  refine .forM fun o => (Made.getsExcept _).bind fun id => ?_
  split
  · exact (Made.getsExcept _).bind fun key => made_changeMarks fun w => keeps w key
  · exact .pure ()

namespace Allows

variable (allows : Allows R)
include allows

theorem made_newObject (o : Entity) : Made R (Deed.newObject o) :=
  .modifyGet _ fun w => allows.newObject w o

theorem made_modifyEntity (v : Value) {f : Entity → Entity} (keeps : Entity.KeepsColumns f) :
    Made R (Deed.modifyEntity v f) := by
  unfold Deed.modifyEntity
  split
  · exact .modify fun w => allows.modified w _ keeps
  · exact .throw _

theorem made_adopt (members : List ObjectId) : Made R (Deed.adopt members) :=
  .modifyGet _ fun w => allows.adopted w members

theorem made_warn (text : String) : Made R (Deed.warn text) := .modify fun w => allows.warned w text

end Allows

section Fetching

open World (Grows)

theorem allows_grows : Allows (τ := τ) Grows where
  newObject w e := .of_push w e
  modified w id _ keeps := .of_modify w id keeps
  adopted w members := (Grows.of_collection w members).trans
    (Grows.of_modify_each _ members
      (f := fun e => { e with collection := some w.collections.size }) fun _ => ⟨rfl, rfl, rfl⟩)
  warned w _ := .of_warnings w _
  marked w _ _ _ := .of_registries w _

theorem made_newObject (o : Entity) : Made Grows (newObject (τ := τ) o) := allows_grows.made_newObject o

theorem made_modifyEntity (v : Value) {f : Entity → Entity} (keeps : Entity.KeepsColumns f) :
    Made (τ := τ) Grows (modifyEntity v f) := allows_grows.made_modifyEntity v keeps

theorem made_adopt (members : List ObjectId) : Made (τ := τ) Grows (adopt members) :=
  allows_grows.made_adopt members

theorem made_warn (text : String) : Made (τ := τ) Grows (warn text) := allows_grows.made_warn text

theorem made_propertyOrNull (v : Value) (name : String) :
    Made (τ := τ) R (propertyOrNull v name) := .getsExcept _

/-- A statement that the guard let through may be handed over on any connection. -/
theorem made_execute {s : Statement} {context : String} {f : Fragment}
    (passed : s.checked context = .ok f) (connection : Value) :
    Made (τ := τ) R (execute connection f.text f.values) :=
  (Made.getsExcept _).bind fun _ => .ask _ ⟨s, context, f, passed, rfl, rfl⟩

/-- The manner of what is made of these pieces. -/
def makingOf (allows : Allows R) : Manner τ where
  Keeps n x P := Made R x ∧ x.Yields fun a => ∃ m, n ≤ m ∧ P m a
  own _ _ := True
  seen _ := True
  own_mono _ h := h
  ofExcept h := ⟨.ofExcept _, .ofExcept fun a same => ⟨_, le_rfl, h a same⟩⟩
  bind {_ _ n x f P Q} hx hf := by
    classical
    have kept : ∀ a, (∃ m, n ≤ m ∧ P m a) →
        Made R (f a) ∧ (f a).Yields fun b => ∃ m, n ≤ m ∧ Q m b := by
      rintro a ⟨m, le, ha⟩
      obtain ⟨made, yields⟩ := hf m le a ha
      exact ⟨made, yields.imp fun b ⟨k, later, hb⟩ => ⟨k, le.trans later, hb⟩⟩
    refine ⟨?_, hx.2.bind fun a ha => (kept a ha).2⟩
    rw [hx.2.bind_congr
      (g := fun a => if ∃ m, n ≤ m ∧ P m a then f a else MonadExcept.throw .noAttribute)
      fun a ha => (if_pos ha).symm]
    refine hx.1.bind fun a => ?_
    split
    · next ha => exact (kept a ha).1
    · exact .throw _
  attempt {_ n _ _} h := by
    refine ⟨h.1.attempt, h.2.attempt.imp fun r there => ?_⟩
    cases r with
    | error e => exact ⟨n, le_rfl, fun _ absurd => nomatch absurd⟩
    | ok a =>
      obtain ⟨m, le, ha⟩ := there a rfl
      exact ⟨m, le, fun _ same => Except.ok.inj same ▸ ha⟩
  getsExcept h := ⟨.getsExcept _, .getsExcept fun w a same => ⟨_, le_rfl, h w trivial a same⟩⟩
  newObject _ := ⟨allows.made_newObject _, (Act.Yields.any _).imp fun _ _ => ⟨_, le_rfl, trivial⟩⟩
  adopt _ := ⟨allows.made_adopt _, (Act.Yields.any _).imp fun _ _ => ⟨_, le_rfl, trivial⟩⟩
  warn _ text := ⟨allows.made_warn text, (Act.Yields.any _).imp fun _ _ => ⟨_, le_rfl, trivial⟩⟩
  execute passed connection :=
    ⟨made_execute passed connection, (Act.Yields.any _).imp fun _ _ => ⟨_, le_rfl, trivial⟩⟩

theorem makingOf_of_made (allows : Allows R) {n : Nat} {x : Deed τ α} (h : Made R x) :
    (makingOf allows).Keeps n x fun _ _ => True :=
  ⟨h, (Act.Yields.any _).imp fun _ _ => ⟨n, le_rfl, trivial⟩⟩

theorem loads_makingOf (allows : Allows R) : (makingOf allows).Loads where
  begin _ _ := makingOf_of_made allows (allows.made_modifyEntity _ (Entity.keepsColumns_beginLoading _))
  abandon _ _ := makingOf_of_made allows (allows.made_modifyEntity _ (Entity.keepsColumns_abandonLoading _))
  settle own _ among := (makingOf allows).settle
    (fun _ _ _ => makingOf_of_made allows
      (allows.made_modifyEntity _ (Entity.keepsColumns_setRelation _ _)))
    (fun _ _ _ _ => makingOf_of_made allows (made_markObjects (fun w _ => allows.marked w _ _ _) _)) own among
  children _ _ := (makingOf allows).imp (makingOf_of_made allows
    ((Made.mapM fun _ => .getsExcept _).bind fun _ => (Made.gets _).bind fun _ => .pure _))
    fun _ _ _ _ _ => trivial

/-- The manner of what makes the world grow by these pieces. -/
def making : Manner τ := makingOf allows_grows

theorem making_of_made {n : Nat} {x : Deed τ α} (h : Made Grows x) :
    making.Keeps n x fun _ _ => True := makingOf_of_made allows_grows h

theorem loads_making : (making (τ := τ)).Loads := loads_makingOf allows_grows

end Fetching

end Deed

namespace Query

open World (Grows)
open Deed (Made)

variable {τ : Type} {R : World τ → World τ → Prop}

theorem made_rows (q : Query) : Made (τ := τ) R q.rows :=
  .ofExcept_bind fun _ passed => Deed.made_execute passed _

/-- Fetching is made of such pieces if the loading that follows it is. -/
theorem made_fetch {load : LoadPaths τ}
    (loads : ∀ self objects paths, Made Grows (load self objects paths)) (q : Query)
    (keyColumn registry : Value) : Made Grows (q.fetch load keyColumn registry) :=
  (@Manner.fetch _ Deed.making 0 _ _ _ (fun _ _ _ _ => Deed.making_of_made (loads _ _ _)) keyColumn).1

end Query

namespace Loader

open World (Grows)
open Deed (Made)

variable {τ : Type}

/-- Loading is made of such pieces, whatever relation allows them. -/
theorem made_loadBelow_of {R : World τ → World τ → Prop} (allows : Deed.Allows R) (depth : Nat)
    (self : Loader) (objects paths : List Value) (at_ : Position) :
    Made R (loadBelow depth self objects paths at_) :=
  (@Manner.Loads.loadBelow _ _ (Deed.loads_makingOf allows) depth 0 self _ (fun _ _ => trivial) paths at_).1

theorem made_loadBelow (depth : Nat) (self : Loader) (objects paths : List Value)
    (at_ : Position) : Made (τ := τ) Grows (loadBelow depth self objects paths at_) :=
  made_loadBelow_of Deed.allows_grows depth self objects paths at_

theorem made_load (self : Loader) (objects paths : List Value) :
    Made (τ := τ) Grows (load self objects paths) :=
  made_loadBelow depthLimit self objects paths _

end Loader

/-- Fetching a query's objects, its relations loaded, is made of such pieces. -/
theorem Query.made_get {τ : Type} (q : Query) (registry : Value) :
    Deed.Made (τ := τ) World.Grows (q.get registry) :=
  made_fetch Loader.made_load q .null registry

end Relata
