import Relata.Proofs.Loading.Pieces
import Relata.Proofs.Store.Tables

/-!
What a fetch leaves behind. A query sends one statement, makes an object of each row that comes back
and leaves the objects that there were as they are; then it loads on the new objects the relations that
it asks for, if any, which may send more. The fetch for a relation sends one such statement for each
chunk of the distinct keys of all the objects that it is for. How the world changes is a relation `R`
between a world and a later one, which has to allow what is loaded with the objects.
-/

namespace Relata

open Act (Runs Carries)
open Deed (Made Stepwise)

/-- What there is for each item makes a list. -/
theorem exists_of_forall₂ {α β γ : Type} {R : α → β → Prop} {S : β → γ → Prop} {xs : List α}
    {zs : List γ} (h : List.Forall₂ (fun x z => ∃ y, R x y ∧ S y z) xs zs) :
    ∃ ys, List.Forall₂ R xs ys ∧ List.Forall₂ S ys zs := by
  induction h with
  | nil => exact ⟨[], .nil, .nil⟩
  | cons here _ ih =>
    obtain ⟨y, hR, hS⟩ := here
    obtain ⟨ys, hRs, hSs⟩ := ih
    exact ⟨y :: ys, .cons hR hRs, .cons hS hSs⟩

theorem exists_of_mem_right {α β : Type} {R : α → β → Prop} {xs : List α} {ys : List β}
    (h : List.Forall₂ R xs ys) {y : β} (there : y ∈ ys) : ∃ x ∈ xs, R x y := by
  induction h with
  | nil => cases there
  | cons here _ ih =>
    rcases List.mem_cons.mp there with rfl | later
    · exact ⟨_, .head _, here⟩
    · obtain ⟨x, hx, own⟩ := ih later
      exact ⟨x, .tail _ hx, own⟩

theorem forall₂_zip {α β γ : Type} {R : α → β → Prop} {S : β → γ → Prop} {xs : List α} {ys : List β}
    {zs : List γ} (h : List.Forall₂ R xs ys) (h' : List.Forall₂ S ys zs) :
    List.Forall₂ (fun x p => R x p.2 ∧ S p.2 p.1) xs (zs.zip ys) := by
  induction h generalizing zs with
  | nil =>
    rw [List.zip_nil_right]
    exact .nil
  | cons here _ ih =>
    cases h' with
    | cons here' rest => exact .cons ⟨here, here'⟩ (ih rest)

namespace World

variable {τ : Type} {w w' w'' : World τ}

/-- Objects and collections are added; the objects that were there keep their relations and columns. -/
structure Adds (w w' : World τ) : Prop where
  untouched : w.Untouched w'
  grows : w.Grows w'

theorem Adds.refl (w : World τ) : w.Adds w := ⟨.of_objects rfl, .refl w⟩

theorem Adds.trans (h : w.Adds w') (h' : w'.Adds w'') : w.Adds w'' where
  untouched := ⟨fun id => (h'.untouched.slots id).trans (h.untouched.slots id),
    h.untouched.grown.trans h'.untouched.grown⟩
  grows := h.grows.trans h'.grows

theorem adds_adopted (w : World τ) (members : List ObjectId) : w.Adds (w.adopted members) :=
  ⟨w.untouched_adopted members, (Grows.of_collection w members).trans
    (Grows.of_modify_each _ members (f := fun e => { e with collection := some w.collections.size })
      fun _ => ⟨rfl, rfl, rfl⟩)⟩

theorem adds_extended (w : World τ) {e : Entity} (bare : e.slots = []) : w.Adds (w.extended e) :=
  ⟨w.untouched_extended bare, .of_push w e⟩

theorem object?_extended_self (w : World τ) (e : Entity) :
    (w.extended e).object? w.objects.size = some e := by simp [extended, Env.object?]

/-- An object is new and was made as `e`. -/
def Newly (w w' : World τ) (e : Entity) (o : ObjectId) : Prop := w.objects.size ≤ o ∧ w'.Holds o e

theorem Newly.later {e : Entity} {o : ObjectId} (h : w.Newly w' e o) (grows : w'.Grows w'') :
    w.Newly w'' e o := ⟨h.1, h.2.later grows⟩

theorem Grows.size_le (h : w.Grows w') : w.objects.size ≤ w'.objects.size := by
  by_contra fewer
  obtain ⟨e', there, -⟩ := h.object (Array.getElem?_eq_getElem (not_le.mp fewer))
  exact Nat.lt_irrefl _ (Array.getElem?_eq_some_iff.mp there).1

/-- A relation between a world and a later one that allows a fetch. -/
structure Latitude (R : World τ → World τ → Prop) : Prop where
  refl : ∀ w, R w w
  trans : ∀ {a b c}, R a b → R b c → R a c
  extended : ∀ w {e : Entity}, e.slots = [] → R w (w.extended e)
  adopted : ∀ w members, R w (w.adopted members)
  grows : ∀ {a b}, R a b → a.Grows b

theorem latitude_adds : Latitude (τ := τ) Adds :=
  ⟨.refl, Adds.trans, fun w _ => w.adds_extended, adds_adopted, Adds.grows⟩

theorem latitude_grows : Latitude (τ := τ) Grows :=
  ⟨.refl, Grows.trans, fun w _ bare => (w.adds_extended bare).grows,
    fun w members => (w.adds_adopted members).grows, id⟩

end World

namespace Deed

variable {τ : Type} {w t : World τ} {sent : Dialogue}

/-- A statement is sent over the connection of that name. -/
theorem carries_execute {connection : Value} {sql : String} {params : List Value} {rows : List Row}
    (carries : Carries (execute connection sql params) w sent (.ok rows) t) :
    ∃ n, w.runner connection = .ok n ∧ sent = [(⟨n, sql, params⟩, .ok rows)] ∧ t = w := by
  obtain ⟨n, runner, asked⟩ := carries_getsExcept_bind carries
  exact ⟨n, runner, carries_ask asked⟩

theorem carries_modifyGet {α : Type} {f : World τ → α × World τ} {r : Except Error α}
    (carries : Carries (Act.modifyGet f) w sent r t) :
    sent = [] ∧ r = .ok (f w).1 ∧ t = (f w).2 := carries.silent (.modifyGet f w)

/-- Reading something of the world for each item. -/
theorem carries_reads {α β : Type} {g : α → World τ → Except Error β} {xs : List α} {bs : List β}
    (carries : Carries (xs.mapM fun x => Act.getsExcept (g x)) w sent (.ok bs) t) :
    sent = [] ∧ t = w ∧ List.Forall₂ (fun x b => g x w = .ok b) xs bs := by
  induction xs generalizing sent bs t with
  | nil =>
    obtain ⟨rfl, same, rfl⟩ := carries.silent (.ofExcept (.ok []) w)
    obtain rfl := Except.ok.inj same
    exact ⟨rfl, rfl, .nil⟩
  | cons x rest ih =>
    rw [List.mapM_cons] at carries
    obtain ⟨b, read, reads⟩ := carries_getsExcept_bind carries
    have made : Made World.Grows (rest.mapM fun x => Act.getsExcept (g x)) :=
      .mapM fun x => .getsExcept (g x)
    obtain ⟨_, _, bs', _, rfl, others, -, ends⟩ := made.ok_of_bind reads
    obtain ⟨rfl, rfl, all⟩ := ih others.carries
    obtain ⟨rfl, same, rfl⟩ := ends.silent (.ofExcept (.ok (b :: bs')) _)
    obtain rfl := Except.ok.inj same
    exact ⟨rfl, rfl, .cons read all⟩

theorem getsExcept_bind_pure {α β : Type} (g : World τ → Except Error α) (k : α → β) :
    (Act.getsExcept g >>= fun a => pure (k a)) = Act.getsExcept fun w => (g w).map k := by
  funext next
  change Process.get _ = Process.get _
  congr 1
  funext w
  dsimp only
  generalize g w = r
  cases r <;> rfl

/-- Objects make a collection, and then something is read for each item. -/
theorem carries_adopted_reads {α β γ : Type} {members : List ObjectId} {xs : List α}
    {read : α → World τ → Except Error β} {f : α → β → γ} {found : List γ}
    (carries : Carries (discard (adopt members) >>= fun _ => xs.mapM fun x => do
      let b ← Act.getsExcept (read x)
      return f x b) w sent (.ok found) t) :
    sent = [] ∧ t = w.adopted members ∧
      List.Forall₂ (fun x c => ∃ b, read x t = .ok b ∧ c = f x b) xs found := by
  obtain ⟨_, _, _, u, rfl, adopted, -, reads⟩ := (Made.discard (made_adopt _)).ok_of_bind carries
  have runs : Runs Eq (discard (adopt members)) w [] (.ok ()) (w.adopted members) := fun _ =>
    .get (.set (.rest _ _))
  obtain ⟨rfl, -, rfl⟩ := adopted.carries.silent runs
  simp only [getsExcept_bind_pure] at reads
  obtain ⟨rfl, rfl, each⟩ := carries_reads reads
  refine ⟨rfl, rfl, each.imp fun x c own => ?_⟩
  cases value : read x (w.adopted members) with
  | error e =>
    rw [value] at own
    cases own
  | ok b =>
    rw [value] at own
    exact ⟨b, rfl, (Except.ok.inj own).symm⟩

end Deed

namespace Query

variable {τ : Type} {w t : World τ} {sent : Dialogue}

/-- What a row becomes, with the key that is taken off it. -/
def keyed (q : Query) (l : Lookup) (keyColumn : Value) (row : Row) : Except Error (Value × Entity) := do
  let (key, bare) ← splitKey keyColumn row
  return (key, ← q.entity l bare)

/-- A statement over some connection, and what becomes of the rows that it is answered with. -/
structure Brings (q : Query) (w : World τ) (keyColumn : Value) (sent : Dialogue)
    (made : List (Value × Entity)) : Prop where
  asked : ∃ f n rows, q.statement.checked "get" = .ok f ∧ w.runner q.select.source.connection = .ok n ∧
    sent = [(⟨n, f.text, f.values⟩, .ok rows)] ∧
    List.Forall₂ (fun row p => q.keyed w.toLookup keyColumn row = .ok p) rows made

theorem runs_hydrate {q : Query} {row : Row} {o : ObjectId}
    (carries : Carries (q.hydrate row) w sent (.ok o) t) :
    ∃ e, q.entity w.toLookup row = .ok e ∧ sent = [] ∧ o = w.objects.size ∧ t = w.extended e := by
  obtain ⟨e, made, carries⟩ := Deed.carries_getsExcept_bind carries
  obtain ⟨rfl, same, rfl⟩ := Deed.carries_modifyGet carries
  exact ⟨e, made, rfl, Except.ok.inj same, rfl⟩

/-- Nothing is sent for the rows, and the keys and the objects are those of the rows. -/
theorem unzip_of_forall₂ {N : Entity → ObjectId → Prop} {made : List (Value × Entity)}
    {found : List (Dialogue × Value × ObjectId)}
    (h : List.Forall₂ (fun m p => p.1 = [] ∧ m.1 = p.2.1 ∧ N m.2 p.2.2) made found) :
    found.flatMap (·.1) = [] ∧ (found.map (·.2)).map (·.1) = made.map (·.1) ∧
      List.Forall₂ (fun m o => N m.2 o) made ((found.map (·.2)).map (·.2)) := by
  induction h with
  | nil => exact ⟨rfl, rfl, .nil⟩
  | cons own _ ih =>
    obtain ⟨silent, keys, objects⟩ := ih
    exact ⟨by simp [own.1, silent], by simp only [List.map_cons, own.2.1, keys], .cons own.2.2 objects⟩

/-- A statement as `Brings` has it, and what is sent after it for the relations that the query asks for. -/
def Asks (q : Query) (w : World τ) (keyColumn : Value) (sent : Dialogue)
    (made : List (Value × Entity)) : Prop :=
  ∃ asked later, sent = asked ++ later ∧ (q.loads.paths = [] → later = []) ∧
    q.Brings w keyColumn asked made

theorem Asks.brings {q : Query} {keyColumn : Value} {made : List (Value × Entity)}
    (h : q.Asks w keyColumn sent made) (flat : q.loads.paths = []) : q.Brings w keyColumn sent made := by
  obtain ⟨asked, later, rfl, none_, brings⟩ := h
  rwa [none_ flat, List.append_nil]

/-- The relations that a query asks for, if any, are loaded in the manner of loading and as `R` allows. -/
def Nests (R : World τ → World τ → Prop) (load : LoadPaths τ) (q : Query) (registry : Value) : Prop :=
  q.loads.paths ≠ [] → ∀ objects,
    Made World.Grows (load (.ofRequest q.loads registry false) objects q.loads.paths) ∧
      ∀ w sent t, Runs Eq (load (.ofRequest q.loads registry false) objects q.loads.paths) w sent
        (.ok ()) t → R w t

theorem Nests.of_flat {R : World τ → World τ → Prop} {load : LoadPaths τ} {q : Query} {registry : Value}
    (flat : q.loads.paths = []) : q.Nests R load registry := fun more => absurd flat more

theorem Nests.of_made {load : LoadPaths τ} {q : Query} {registry : Value}
    (loads : ∀ self objects paths, Made World.Grows (load self objects paths)) :
    q.Nests World.Grows load registry := fun _ _ =>
  ⟨loads _ _ _, fun _ _ _ runs => ((loads _ _ _).runs_of_carries World.Grows.refl World.Grows.trans
    runs.carries).2⟩

variable {R : World τ → World τ → Prop}

/-- The object that a row becomes, with the key that is taken off the row. -/
def object (q : Query) (keyColumn : Value) (row : Row) : Deed τ (Value × ObjectId) := do
  let (key, bare) ← Act.ofExcept (splitKey keyColumn row)
  return (key, ← q.hydrate bare)

theorem made_object (q : Query) (keyColumn : Value) (row : Row) :
    Made (τ := τ) World.Grows (q.object keyColumn row) :=
  (Made.ofExcept _).bind fun _ => Made.bind ((Made.getsExcept _).bind fun e => Deed.made_newObject e)
    fun _ => .pure _

/-- A row becomes the next object. -/
theorem carries_object {q : Query} {keyColumn : Value} {row : Row} {p : Value × ObjectId}
    (carries : Carries (q.object keyColumn row) w sent (.ok p) t) :
    ∃ split e, splitKey keyColumn row = .ok split ∧ q.entity w.toLookup split.2 = .ok e ∧ sent = [] ∧
      p = (split.1, w.objects.size) ∧ t = w.extended e := by
  obtain ⟨split, cut, hydrates⟩ := Deed.carries_ofExcept_bind carries
  obtain ⟨_, _, o, _, rfl, hydrated, -, ends⟩ :=
    Made.ok_of_bind ((Made.getsExcept _).bind fun e => Deed.made_newObject e) hydrates
  obtain ⟨e, made, rfl, rfl, rfl⟩ := runs_hydrate hydrated.carries
  obtain ⟨rfl, same, rfl⟩ := ends.silent (.ofExcept (.ok (split.1, _)) _)
  exact ⟨split, e, cut, made, rfl, Except.ok.inj same, rfl⟩

/-- Rows become new objects one after the other, and nothing is sent for them. -/
theorem runs_objects (allows : World.Latitude R) {q : Query} {keyColumn : Value} {rows : List Row}
    {found : List (Value × ObjectId)}
    (carries : Carries (rows.mapM (q.object keyColumn)) w sent (.ok found) t) :
    sent = [] ∧ R w t ∧ ∃ made,
      List.Forall₂ (fun row p => q.keyed w.toLookup keyColumn row = .ok p) rows made ∧
      found.map (·.1) = made.map (·.1) ∧
      List.Forall₂ (fun p o => w.Newly t p.2 o) made (found.map (·.2)) := by
  obtain ⟨found, rfl, rfl, steps⟩ := Made.stepwise (q.made_object keyColumn) carries
  obtain ⟨begins, each⟩ : R w t ∧ List.Forall₂ (fun row p => ∃ m,
      q.keyed w.toLookup keyColumn row = .ok m ∧ p.1 = [] ∧ m.1 = p.2.1 ∧ w.Newly t m.2 p.2.2)
      rows found := by
    refine steps.all (R := R) (Q := fun s row p => ∃ m,
        q.keyed w.toLookup keyColumn row = .ok m ∧ p.1 = [] ∧ m.1 = p.2.1 ∧ w.Newly s m.2 p.2.2)
      allows.refl allows.trans
      (fun changed own => own.imp fun m there => ⟨there.1, there.2.1, there.2.2.1,
        there.2.2.2.later (allows.grows changed)⟩)
      fun row _ s s' p begun runs grows => ?_
    have before := allows.grows begun
    obtain ⟨split, e, cut, made, silent, same, rfl⟩ := carries_object runs.carries
    rw [same]
    refine ⟨allows.extended s (slots_of_entity made), (split.1, e), ?_, silent, rfl,
      before.size_le, World.holds_of_object? (s.object?_extended_self e)⟩
    rw [before.lookup] at made
    rw [keyed, cut]
    change (q.entity w.toLookup split.2 >>= fun e => Except.ok (split.1, e)) = _
    rw [made]
    rfl
  obtain ⟨made, keyed, stands⟩ := exists_of_forall₂ each
  obtain ⟨silent, keys, objects⟩ := unzip_of_forall₂ (N := w.Newly t) stands
  exact ⟨silent, begins, made, keyed, keys, objects⟩

/-- A query taken apart: its statement, the new objects that are made of the rows, the load of the
relations that it asks for, if it asks for any and there are objects, and the collection in the end. -/
theorem carries_fetch {load : LoadPaths τ} {q : Query} {keyColumn registry : Value} {page : Fetched}
    (made_load : q.loads.paths ≠ [] → ∀ objects,
      Made World.Grows (load (.ofRequest q.loads registry false) objects q.loads.paths))
    (carries : Carries (q.fetch load keyColumn registry) w sent (.ok page) t) :
    ∃ f n rows found told later s u, q.statement.checked "get" = .ok f ∧
      w.runner q.select.source.connection = .ok n ∧
      sent = (⟨n, f.text, f.values⟩, .ok rows) :: (told ++ later) ∧
      Carries (rows.mapM (q.object keyColumn)) w told (.ok found) s ∧
      page = ⟨u.collections.size, found.map (·.2), if keyColumn.isNull then [] else found.map (·.1)⟩ ∧
      t = u.adopted page.members ∧
      (later = [] ∧ u = s ∨ q.loads.paths ≠ [] ∧
        Runs Eq (load (.ofRequest q.loads registry false) (page.members.map .object) q.loads.paths)
          s later (.ok ()) u) := by
  obtain ⟨f, passed, asks⟩ := Deed.carries_ofExcept_bind carries
  obtain ⟨_, later, rows, w₁, rfl, runs, -, answered⟩ := (Deed.made_execute passed _).ok_of_bind asks
  obtain ⟨n, runner, rfl, rfl⟩ := Deed.carries_execute runs.carries
  obtain ⟨told, last, found, s, rfl, loops, -, loads⟩ :=
    (Made.mapM (q.made_object keyColumn)).ok_of_bind answered
  -- The same ending, whether or not relations of the new objects are loaded before it.
  have finish {u : World τ} {rest : Dialogue}
      (adopts : Carries (Deed.adopt (found.map (·.2)) >>= fun collection =>
        pure (⟨collection, found.map (·.2),
          if keyColumn.isNull then [] else found.map (·.1)⟩ : Fetched)) u rest (.ok page) t) :
      rest = [] ∧ t = u.adopted page.members ∧ page = ⟨u.collections.size, found.map (·.2),
        if keyColumn.isNull then [] else found.map (·.1)⟩ := by
    obtain ⟨_, _, c, _, rfl, adopted, -, ends⟩ := (Deed.made_adopt _).ok_of_bind adopts
    obtain ⟨rfl, same, rfl⟩ := Deed.carries_modifyGet adopted.carries
    obtain rfl := Except.ok.inj same
    obtain ⟨rfl, same, rfl⟩ := ends.silent (.ofExcept (.ok _) _)
    obtain rfl := Except.ok.inj same
    exact ⟨rfl, rfl, rfl⟩
  dsimp only at loads
  split at loads
  · next more =>
    simp only [Bool.and_eq_true, Bool.not_eq_true', List.isEmpty_eq_false_iff] at more
    obtain ⟨nested, _, _, u, rfl, runs, -, adopts⟩ := (made_load more.1 _).ok_of_bind loads
    obtain ⟨rfl, rfl, rfl⟩ := finish adopts
    exact ⟨f, n, rows, found, told, nested, s, u, passed, runner, by simp, loops.carries, rfl, rfl,
      .inr ⟨more.1, runs⟩⟩
  · obtain ⟨rfl, rfl, rfl⟩ := finish loads
    exact ⟨f, n, rows, found, told, [], s, s, passed, runner, by simp, loops.carries, rfl, rfl,
      .inl ⟨rfl, rfl⟩⟩

/-- A query taken apart, with what is known of the new objects. -/
theorem runs_fetch_parts (allows : World.Latitude R) {load : LoadPaths τ} {q : Query}
    {keyColumn registry : Value} {page : Fetched}
    (made_load : q.loads.paths ≠ [] → ∀ objects,
      Made World.Grows (load (.ofRequest q.loads registry false) objects q.loads.paths))
    (carries : Carries (q.fetch load keyColumn registry) w sent (.ok page) t) :
    ∃ asked later made s u, sent = asked ++ later ∧ q.Brings w keyColumn asked made ∧ R w s ∧
      List.Forall₂ (fun p o => w.Newly s p.2 o) made page.members ∧
      page.keys = (if keyColumn.isNull then [] else made.map (·.1)) ∧ t = u.adopted page.members ∧
      (later = [] ∧ u = s ∨ q.loads.paths ≠ [] ∧
        Runs Eq (load (.ofRequest q.loads registry false) (page.members.map .object) q.loads.paths)
          s later (.ok ()) u) := by
  obtain ⟨f, n, rows, found, told, later, s, u, passed, runner, rfl, loops, rfl, rfl, loads⟩ :=
    carries_fetch made_load carries
  obtain ⟨rfl, begins, made, keyed, keys, objects⟩ := runs_objects allows loops
  exact ⟨[(⟨n, f.text, f.values⟩, .ok rows)], later, made, s, u, rfl, ⟨f, n, rows, passed, runner, rfl, keyed⟩,
    begins, objects, by simp only [keys], rfl, loads⟩

/-- What a query leaves behind. -/
theorem runs_fetch_allowed (allows : World.Latitude R) {load : LoadPaths τ} {q : Query}
    {keyColumn registry : Value} {page : Fetched} (nests : q.Nests R load registry)
    (carries : Carries (q.fetch load keyColumn registry) w sent (.ok page) t) :
    ∃ made, q.Asks w keyColumn sent made ∧
      List.Forall₂ (fun p o => w.Newly t p.2 o) made page.members ∧
      page.keys = (if keyColumn.isNull then [] else made.map (·.1)) ∧ R w t := by
  obtain ⟨asked, later, made, s, u, rfl, brings, begins, objects, keys, rfl, loads⟩ :=
    runs_fetch_parts allows (fun more objects => (nests more objects).1) carries
  have loaded : R s u ∧ (q.loads.paths = [] → later = []) := by
    obtain ⟨rfl, rfl⟩ | ⟨more, runs⟩ := loads
    · exact ⟨allows.refl _, fun _ => rfl⟩
    · exact ⟨(nests more _).2 _ _ _ runs, fun flat => absurd flat more⟩
  have rest := allows.trans loaded.1 (allows.adopted u page.members)
  exact ⟨made, ⟨asked, later, rfl, loaded.2, brings⟩,
    objects.imp fun _ _ new => new.later (allows.grows rest), keys, allows.trans begins rest⟩

end Query

namespace Loader

variable {τ : Type} {w t : World τ} {sent : Dialogue} {depth : Nat} {self : Loader} {d : Descriptor}
  {parent : Model} {path : String}

theorem made_keysMustHash (values : List Value) : Made (τ := τ) World.Grows (keysMustHash values) := by
  refine (Made.gets _).bind fun hash => ?_
  split
  · exact .throw _
  · exact .pure ()

theorem carries_keysMustHash_bind {α : Type} {values : List Value} {f : Unit → Deed τ α} {a : α}
    (carries : Carries (keysMustHash values >>= f) w sent (.ok a) t) :
    Carries (f ()) w sent (.ok a) t := by
  obtain ⟨first, later, _, w', rfl, runs, -, rest⟩ := (made_keysMustHash values).ok_of_bind carries
  have hashes := Deed.carries_gets_bind runs.carries
  split at hashes
  · obtain ⟨-, absurd, -⟩ := hashes.silent (.ofExcept (.error .badType) w)
    cases absurd
  · obtain ⟨rfl, -, rfl⟩ := hashes.silent (.ofExcept (.ok ()) w)
    exact rest

/-- The column that is taken off the rows of a chunk, if one is. -/
def taken (d : Descriptor) : Value :=
  match d.relatedColumn with
  | none => .text (tagColumn d)
  | some _ => .null

/-- The key that an object of a chunk is found by: the one that was taken off its row, or an attribute
that it had. -/
def FoundBy (d : Descriptor) (t : World τ) (made : Value × Entity) (found : Value × ObjectId) : Prop :=
  match d.relatedColumn with
  | none => found.1 = made.1
  | some column => ∃ s : World τ, s.Grows t ∧ s.Holds found.2 made.2 ∧
    s.propertyOrNull (.object found.2) column = .ok found.1

theorem FoundBy.later {made : Value × Entity} {found : Value × ObjectId} {t' : World τ}
    (h : FoundBy d t made found) (grows : t.Grows t') : FoundBy d t' made found := by
  unfold FoundBy at *
  split at h
  · exact h
  · obtain ⟨s, later, read⟩ := h
    exact ⟨s, later.trans grows, read⟩

/-- A new object that was made of a row, with the key that it is found by. -/
def Chunk (d : Descriptor) (w t : World τ) (made : Value × Entity) (found : Value × ObjectId) : Prop :=
  w.Newly t made.2 found.2 ∧ FoundBy d t made found

theorem Chunk.later {made : Value × Entity} {found : Value × ObjectId} {w₀ t' : World τ}
    (h : Chunk d w t made found) (before : w₀.objects.size ≤ w.objects.size) (grows : t.Grows t') :
    Chunk d w₀ t' made found := ⟨⟨before.trans h.1.1, h.1.2.later grows⟩, h.2.later grows⟩

/-- A page of objects: the statement of a query that is built on the way, whatever is sent for the
relations that it asks for, and new objects that are made of the rows, each with the key that it is
found by. -/
def Page (R : World τ → World τ → Prop) (built : World τ → Except Error Query) (column : Value)
    (foundBy : World τ → Value × Entity → Value × ObjectId → Prop) (w t : World τ)
    (page : Dialogue × List (Value × ObjectId)) : Prop :=
  ∃ w' q made, R w w' ∧ built w' = .ok q ∧ q.Asks w' column page.1 made ∧
    List.Forall₂ (fun made found => w.Newly t made.2 found.2 ∧ foundBy t made found) made page.2

/-- What an object is found by is read off it, once it is there. -/
def ReadOff (read : ObjectId → World τ → Except Error Value) (t : World τ) (made : Value × Entity)
    (found : Value × ObjectId) : Prop :=
  ∃ s : World τ, s.Grows t ∧ s.Holds found.2 made.2 ∧ read found.2 s = .ok found.1

/-- The objects of a page: those of a query that is run, with what is read off them. -/
theorem carries_page {load : LoadPaths τ} {registry : Value} {built : World τ → Except Error Query}
    (read : ObjectId → World τ → Except Error Value) {pairs : List (Value × ObjectId)}
    (made_fetch : ∀ q : Query, Made World.Grows (q.fetch load .null registry))
    (carries : Carries (Act.getsExcept built >>= fun q => q.fetch load .null registry >>= fun page =>
      (page.members.mapM fun o => Act.getsExcept (read o)) >>= fun keys =>
        keysMustHash keys >>= fun _ => pure (keys.zip page.members)) w sent (.ok pairs) t) :
    ∃ q page keys, built w = .ok q ∧ Carries (q.fetch load .null registry) w sent (.ok page) t ∧
      List.Forall₂ (fun o key => read o t = .ok key) page.members keys ∧ pairs = keys.zip page.members := by
  obtain ⟨q, built, fetches⟩ := Deed.carries_getsExcept_bind carries
  obtain ⟨first, later, page, w₁, rfl, runs, -, reads⟩ := (made_fetch q).ok_of_bind fetches
  have made_reads : Made World.Grows (page.members.mapM fun o => Act.getsExcept (read o)) :=
    .mapM fun o => .getsExcept (read o)
  obtain ⟨_, _, keys, w₂, rfl, gets, -, hashes⟩ := made_reads.ok_of_bind reads
  obtain ⟨rfl, rfl, each⟩ := Deed.carries_reads gets.carries
  obtain ⟨rfl, same, rfl⟩ := (carries_keysMustHash_bind hashes).silent (.ofExcept (.ok _) w₂)
  obtain rfl := Except.ok.inj same
  exact ⟨q, page, keys, built, by simpa using runs.carries, each, rfl⟩

section

variable {R : World τ → World τ → Prop} (allows : World.Latitude R)
  {built : World τ → Except Error Query} {column : Value}
  {foundBy : World τ → Value × Entity → Value × ObjectId → Prop}
  {page : Dialogue × List (Value × ObjectId)}
include allows

theorem Page.later {t' : World τ} (stays : ∀ {made found}, foundBy t made found → foundBy t' made found)
    (h : Page R built column foundBy w t page) (changed : R t t') :
    Page R built column foundBy w t' page := by
  obtain ⟨w', q, made, before, built, asks, stands⟩ := h
  exact ⟨w', q, made, before, built, asks,
    stands.imp fun _ _ own => ⟨own.1.later (allows.grows changed), stays own.2⟩⟩

theorem Page.before {w₀ : World τ} (h : Page R built column foundBy w t page) (changed : R w₀ w) :
    Page R built column foundBy w₀ t page := by
  obtain ⟨w', q, made, before, built, asks, stands⟩ := h
  exact ⟨w', q, made, allows.trans changed before, built, asks,
    stands.imp fun _ _ own => ⟨⟨(allows.grows changed).size_le.trans own.1.1, own.1.2⟩, own.2⟩⟩

/-- A query is run, and its objects are told by what is read off them. -/
theorem runs_page {load : LoadPaths τ} {registry : Value} (read : ObjectId → World τ → Except Error Value)
    {pairs : List (Value × ObjectId)}
    (made_fetch : ∀ q : Query, Made World.Grows (q.fetch load .null registry))
    (nests : ∀ q, built w = .ok q → q.Nests R load registry)
    (carries : Carries (Act.getsExcept built >>= fun q => q.fetch load .null registry >>= fun page =>
      (page.members.mapM fun o => Act.getsExcept (read o)) >>= fun keys =>
        keysMustHash keys >>= fun _ => pure (keys.zip page.members)) w sent (.ok pairs) t) :
    Page R built .null (ReadOff read) w t (sent, pairs) ∧ R w t := by
  obtain ⟨q, page, keys, built, fetches, each, rfl⟩ := carries_page read made_fetch carries
  obtain ⟨made, asks, stands, -, changed⟩ := Query.runs_fetch_allowed allows (nests q built) fetches
  refine ⟨⟨w, q, made, allows.refl w, built, asks, ?_⟩, changed⟩
  exact (forall₂_zip stands each).imp fun _ _ own => ⟨own.1, _, .refl _, own.1.2, own.2⟩

/-- Pages that are fetched one after the other. -/
theorem pages_of_stepwise {built : List Value → World τ → Except Error Query}
    {f : List Value → Deed τ (List (Value × ObjectId))} {pieces : List (List Value)}
    {pages : List (Dialogue × List (Value × ObjectId))} (steps : Stepwise f w pieces pages t)
    (stays : ∀ {s s' made found}, R s s' → foundBy s made found → foundBy s' made found)
    (step : ∀ keys ∈ pieces, ∀ {s s' p}, R w s → Runs Eq (f keys) s p.1 (.ok p.2) s' →
      Page R (built keys) column foundBy s s' p ∧ R s s') :
    List.Forall₂ (fun keys page => Page R (built keys) column foundBy w t page) pieces pages ∧ R w t := by
  obtain ⟨changed, each⟩ := steps.all (R := R)
    (Q := fun s keys page => Page R (built keys) column foundBy w s page) allows.refl allows.trans
    (fun changed own => own.later allows (stays changed) changed) fun keys there _ _ _ begun runs _ => by
      obtain ⟨own, changed⟩ := step keys there begun runs
      exact ⟨changed, own.before allows begun⟩
  exact ⟨each, changed⟩

end

theorem ReadOff.later {read : ObjectId → World τ → Except Error Value} {made : Value × Entity}
    {found : Value × ObjectId} {t' : World τ} (h : ReadOff read t made found) (grows : t.Grows t') :
    ReadOff read t' made found := by
  obtain ⟨s, before, own⟩ := h
  exact ⟨s, before.trans grows, own⟩

variable {R : World τ → World τ → Prop}

theorem runs_fetchChunk_allowed (allows : World.Latitude R) {keys : List Value}
    {pairs : List (Value × ObjectId)}
    (nests : ∀ q, self.chunkQuery w.toEnv d parent path keys = .ok q →
      q.Nests R (below depth) self.registry)
    (carries : Carries (fetchChunk (below depth) self d parent path keys) w sent (.ok pairs) t) :
    Page R (fun w => self.chunkQuery w.toEnv d parent path keys) (taken d) (FoundBy d) w t
      (sent, pairs) ∧ R w t := by
  have made_fetch (q : Query) (column : Value) :
      Made World.Grows (q.fetch (τ := τ) (below depth) column self.registry) :=
    Query.made_fetch (fun _ _ _ => made_loadBelow _ _ _ _ _) q _ _
  unfold fetchChunk at carries
  cases column : d.relatedColumn with
  | none =>
    simp only [column] at carries
    obtain ⟨q, built, fetches⟩ := Deed.carries_getsExcept_bind carries
    obtain ⟨first, later, page, w₁, rfl, runs, -, hashes⟩ := (made_fetch q _).ok_of_bind fetches
    obtain ⟨made, asks, stands, keyed, changed⟩ :=
      Query.runs_fetch_allowed allows (nests q built) runs.carries
    obtain ⟨rfl, same, rfl⟩ := (carries_keysMustHash_bind hashes).silent (.ofExcept (.ok _) w₁)
    obtain rfl := Except.ok.inj same
    refine ⟨⟨w, q, made, allows.refl w, built, by simpa [taken, column] using asks, ?_⟩, changed⟩
    rw [keyed, if_neg (by simp [Value.isNull])]
    generalize page.members = members at stands
    clear asks keyed
    induction stands with
    | nil => exact .nil
    | cons own _ ih => exact .cons ⟨own, by simp [FoundBy, column]⟩ ih
  | some name =>
    simp only [column] at carries
    obtain ⟨⟨w', q, made, before, built, asks, stands⟩, changed⟩ := runs_page allows
      (fun o w => w.propertyOrNull (.object o) name) (fun q => made_fetch q _) nests carries
    refine ⟨⟨w', q, made, before, built, by simpa [taken, column] using asks, ?_⟩, changed⟩
    exact stands.imp fun made found own => ⟨own.1, by simpa [FoundBy, ReadOff, column] using own.2⟩

/-- What a relation holds of related objects, for a parent with that key. -/
def heldFor (d : Descriptor) (related : List (Value × ObjectId)) (key : Value) : Value :=
  let mine := (related.foldl (fun (m : Matches) (key, o) => m.add key (.object o)) []).under key
  if d.kind.isSingle then mine.headD .null else .list mine

/-- One statement for each piece of the distinct keys of the objects, and what comes of the rows. -/
structure Batch (loader : Loader) (d : Descriptor) (parent : Model) (path : String) (objects : List Value)
    (w t : World τ) (pages : List (Dialogue × List (Value × ObjectId))) : Prop where
  pieces : ∃ keys pieces, List.Forall₂ (fun o key =>
      w.propertyOrNull o (Descriptor.written d.parentAttribute) = .ok key) objects keys ∧
    chunks loader.chunkSize (distinctKeys keys) = .ok pieces ∧
    List.Forall₂ (fun keys page => ∃ w' q made, w.Adds w' ∧
      loader.chunkQuery w'.toEnv d parent path keys = .ok q ∧ q.Brings w' (taken d) page.1 made ∧
      List.Forall₂ (Chunk d w t) made page.2) pieces pages

theorem made_fetchChunk (keys : List Value) :
    Made (τ := τ) World.Grows (fetchChunk (below depth) self d parent path keys) :=
  (@Manner.fetchChunk _ Deed.making 0 _ _ _ _ _ (Manner.Tends.fetches
    fun _ _ _ _ _ => Deed.making_of_made (made_loadBelow _ _ _ _ _)) keys).1

/-- The statements for the pieces of the distinct keys of the objects, and what comes of the rows. -/
def Pages (R : World τ → World τ → Prop) (loader : Loader) (d : Descriptor) (parent : Model)
    (path : String) (objects : List Value) (w t : World τ)
    (pages : List (Dialogue × List (Value × ObjectId))) : Prop :=
  ∃ keys pieces, List.Forall₂ (fun o key =>
      w.propertyOrNull o (Descriptor.written d.parentAttribute) = .ok key) objects keys ∧
    chunks loader.chunkSize (distinctKeys keys) = .ok pieces ∧
    List.Forall₂ (fun keys page => Page R (fun w => loader.chunkQuery w.toEnv d parent path keys)
      (taken d) (FoundBy d) w t page) pieces pages

/-- The fetch for a relation taken apart: the keys of the objects, the pages for the pieces of these, the
collection that their objects make, and what each object is given of it. -/
theorem carries_fetchRelated {objects values : List Value}
    (carries : Carries (fetchRelated (below depth) self d parent path objects) w sent (.ok values) t) :
    ∃ keys pieces pages u, List.Forall₂ (fun o key =>
        w.propertyOrNull o (Descriptor.written d.parentAttribute) = .ok key) objects keys ∧
      chunks self.chunkSize (distinctKeys keys) = .ok pieces ∧ sent = pages.flatMap (·.1) ∧
      Stepwise (fetchChunk (below depth) self d parent path) w pieces pages u ∧
      t = u.adopted ((pages.flatMap (·.2)).map (·.2)) ∧
      List.Forall₂ (fun o v => ∃ key, t.propertyOrNull o (Descriptor.written d.parentAttribute) = .ok key ∧
        v = heldFor d (pages.flatMap (·.2)) key) objects values := by
  have made_reads : Made World.Grows (objects.mapM fun o =>
      Deed.propertyOrNull (τ := τ) o (Descriptor.written d.parentAttribute)) :=
    .mapM fun o => Deed.made_propertyOrNull _ _
  obtain ⟨_, _, keys, w₁, rfl, gets, -, hashes⟩ := made_reads.ok_of_bind carries
  obtain ⟨rfl, rfl, read⟩ := Deed.carries_reads gets.carries
  obtain ⟨pieces, cut, fetches⟩ := Deed.carries_ofExcept_bind (carries_keysMustHash_bind hashes)
  obtain ⟨_, _, _, u, rfl, loops, -, adopts⟩ := (Made.mapM made_fetchChunk).ok_of_bind fetches
  obtain ⟨pages, rfl, rfl, steps⟩ := Made.stepwise made_fetchChunk loops.carries
  rw [← List.flatMap_def] at adopts
  obtain ⟨rfl, rfl, values⟩ := Deed.carries_adopted_reads adopts
  refine ⟨keys, pieces, pages, u, read, cut, by simp, steps, rfl, values.imp fun o v own => ?_⟩
  obtain ⟨key, read, rfl⟩ := own
  exact ⟨key, read, rfl⟩

/-- The pages for the pieces of the keys, and the collection that their objects make. -/
theorem pages_adopted (allows : World.Latitude R) {objects keys : List Value} {pieces : List (List Value)}
    {pages : List (Dialogue × List (Value × ObjectId))}
    (nests : ∀ w', R w w' → ∀ keys q, self.chunkQuery w'.toEnv d parent path keys = .ok q →
      q.Nests R (below depth) self.registry)
    (read : List.Forall₂ (fun o key =>
      w.propertyOrNull o (Descriptor.written d.parentAttribute) = .ok key) objects keys)
    (cut : chunks self.chunkSize (distinctKeys keys) = .ok pieces)
    (steps : Stepwise (fetchChunk (below depth) self d parent path) w pieces pages t) :
    Pages R self d parent path objects w (t.adopted ((pages.flatMap (·.2)).map (·.2))) pages ∧
      R w (t.adopted ((pages.flatMap (·.2)).map (·.2))) := by
  obtain ⟨each, changed⟩ := pages_of_stepwise allows steps
    (fun changed own => own.later (allows.grows changed)) fun keys _ s _ _ begun runs =>
      runs_fetchChunk_allowed allows (nests s begun keys) runs.carries
  have more := allows.adopted t ((pages.flatMap (·.2)).map (·.2))
  exact ⟨⟨keys, pieces, read, cut, each.imp fun keys page own =>
    own.later allows (·.later (allows.grows more)) more⟩, allows.trans changed more⟩

/-- What the fetch for a relation leaves behind. -/
theorem runs_fetchRelated_allowed (allows : World.Latitude R) {objects values : List Value}
    (nests : ∀ w', R w w' → ∀ keys q, self.chunkQuery w'.toEnv d parent path keys = .ok q →
      q.Nests R (below depth) self.registry)
    (carries : Carries (fetchRelated (below depth) self d parent path objects) w sent (.ok values) t) :
    ∃ pages, sent = pages.flatMap (·.1) ∧ Pages R self d parent path objects w t pages ∧
      List.Forall₂ (fun o v => ∃ key, t.propertyOrNull o (Descriptor.written d.parentAttribute) = .ok key ∧
        v = heldFor d (pages.flatMap (·.2)) key) objects values ∧ R w t := by
  obtain ⟨keys, pieces, pages, u, read, cut, told, steps, rfl, held⟩ := carries_fetchRelated carries
  obtain ⟨own, changed⟩ := pages_adopted allows nests read cut steps
  exact ⟨pages, told, own, held, changed⟩

theorem Pages.batch {objects : List Value} {pages : List (Dialogue × List (Value × ObjectId))}
    (h : Pages World.Adds self d parent path objects w t pages)
    (flat : ∀ w', w.Adds w' → ∀ keys q, self.chunkQuery w'.toEnv d parent path keys = .ok q →
      q.loads.paths = []) : Batch self d parent path objects w t pages := by
  obtain ⟨keys, pieces, read, cut, each⟩ := h
  refine ⟨keys, pieces, read, cut, each.imp fun keys page own => ?_⟩
  obtain ⟨w', q, made, before, built, asks, stands⟩ := own
  exact ⟨w', q, made, before, built, asks.brings (flat w' before keys q built), stands⟩

theorem runs_fetchRelated {objects values : List Value}
    (flat : ∀ w', w.Adds w' → ∀ keys q, self.chunkQuery w'.toEnv d parent path keys = .ok q →
      q.loads.paths = [])
    (carries : Carries (fetchRelated (below depth) self d parent path objects) w sent (.ok values) t) :
    ∃ pages, sent = pages.flatMap (·.1) ∧ Batch self d parent path objects w t pages ∧
      List.Forall₂ (fun o v => ∃ key, t.propertyOrNull o (Descriptor.written d.parentAttribute) = .ok key ∧
        v = heldFor d (pages.flatMap (·.2)) key) objects values ∧ w.Adds t := by
  obtain ⟨pages, told, own, others⟩ := runs_fetchRelated_allowed World.latitude_adds
    (fun w' adds keys q built => .of_flat (flat w' adds keys q built)) carries
  exact ⟨pages, told, own.batch flat, others⟩

end Loader

end Relata
