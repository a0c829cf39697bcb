import Relata.Loading.Shared
import Relata.Proofs.Loading.Grouped
import Relata.Proofs.Process.Beside
import Relata.Proofs.Store.Slots

/-!
Manners of acting. A manner says what deeds keep to and what their results are, for deeds put
together from a few pieces: reads of the world, new objects, collections of objects, warnings, and
statements as the guard let them through. The functions that fetch are gone through once here, for
every manner that those pieces keep to. Some objects may be a deed's own: a fetch makes such objects,
hands out no others, and changes no others.
-/

namespace Relata

/-- A manner that deeds keep to that begin when there are so many objects or more, with a condition
that their results meet. It may depend on how many objects there are by then. -/
structure Manner (τ : Type) where
  Keeps : {α : Type} → Nat → Deed τ α → (Nat → α → Prop) → Prop
  /-- The values that deeds of this manner hand out when there are so many objects. -/
  own : Nat → Value → Prop
  /-- What is known of the world wherever it is read. -/
  seen : World τ → Prop
  own_mono : ∀ {n m : Nat} {v : Value}, n ≤ m → own n v → own m v
  ofExcept : ∀ {α : Type} {n : Nat} {r : Except Error α} {P : Nat → α → Prop},
    (∀ a, r = .ok a → P n a) → Keeps n (Act.ofExcept r) P
  bind : ∀ {α β : Type} {n : Nat} {x : Deed τ α} {f : α → Deed τ β} {P : Nat → α → Prop}
    {Q : Nat → β → Prop}, Keeps n x P → (∀ m, n ≤ m → ∀ a, P m a → Keeps m (f a) Q) →
      Keeps n (x >>= f) Q
  attempt : ∀ {α : Type} {n : Nat} {x : Deed τ α} {P : Nat → α → Prop}, Keeps n x P →
    Keeps n x.attempt fun m r => ∀ a, r = .ok a → P m a
  getsExcept : ∀ {α : Type} {n : Nat} {f : World τ → Except Error α} {P : Nat → α → Prop},
    (∀ w, seen w → ∀ a, f w = .ok a → P n a) → Keeps n (Act.getsExcept f) P
  newObject : ∀ {n : Nat} {e : Entity}, e.slots = [] →
    Keeps n (Deed.newObject e) fun m o => own m (.object o)
  adopt : ∀ {n : Nat} {members : List ObjectId}, (∀ o ∈ members, own n (.object o)) →
    Keeps n (Deed.adopt members) fun _ _ => True
  warn : ∀ (n : Nat) (text : String), Keeps n (Deed.warn text) fun _ _ => True
  execute : ∀ {n : Nat} {s : Sql.Statement} {context : String} {f : Sql.Fragment},
    s.checked context = .ok f → ∀ connection,
      Keeps n (Deed.execute connection f.text f.values) fun _ _ => True

/-- Setting a relation on objects, each to a value of its own, and marking them with it. -/
def Loader.settle {τ : Type} (slot given : Value) (objects values : List Value) : Deed τ Unit := do
  (objects.zip values).forM fun (o, v) => Deed.modifyEntity o (·.setRelation slot v)
  let registry ← Act.ofExcept (Deed.registryId given)
  Deed.markObjects registry objects [.ok slot]

/-- What a load does once it has fetched a relation for the objects that are waiting for it, or has
failed to. -/
def Loader.conclude {τ : Type} (self : Loader) (slot : Value) (pending : List Value) :
    Except Error (List Value) → Deed τ Unit
  | .error e => do
    pending.forM fun o => Deed.modifyEntity o (·.abandonLoading slot)
    throw e
  | .ok values => settle slot self.registry pending values

/-- Loading as `loadBelow` hands it on to the queries that it runs. -/
def Loader.below {τ : Type} (depth : Nat) : LoadPaths τ := fun loader objects paths =>
  loadBelow depth loader objects paths ⟨"", false⟩

/-- The values of a relation for objects of one class. -/
def Loader.fetching {τ : Type} (load : LoadPaths τ) (self : Loader) (d : Descriptor) (m : Model)
    (path : String) (pending : List Value) : Deed τ (List Value) :=
  if d.kind == .morphTo then fetchMorphTo load self d path pending
  else fetchRelated load self d m path pending

theorem Loader.loadPending_eq {τ : Type} (load : LoadPaths τ) (self : Loader) (d : Descriptor)
    (m : Model) (path : String) (slot : Value) (pending : List Value) :
    loadPending load self d m path slot pending =
      ((pending.forM fun o => Deed.modifyEntity o (·.beginLoading slot)) >>= fun _ =>
        (fetching load self d m path pending).attempt >>= self.conclude slot pending) := by
  unfold loadPending
  congr 1

namespace Manner

variable {τ α β : Type} (M : Manner τ) {n : Nat} {P : Nat → α → Prop} {Q : Nat → β → Prop}

theorem pure {a : α} (h : P n a) : M.Keeps n (Pure.pure a) P :=
  M.ofExcept fun _ same => Except.ok.inj same ▸ h

theorem throw (e : Error) : M.Keeps n (MonadExcept.throw e) P :=
  M.ofExcept fun _ absurd => nomatch absurd

theorem imp {x : Deed τ α} {P' : Nat → α → Prop} (h : M.Keeps n x P)
    (hp : ∀ m a, P m a → P' m a) : M.Keeps n x P' := by
  have kept := M.bind h (f := Pure.pure) fun m _ a ha => M.pure (hp m a ha)
  rwa [bind_pure] at kept

theorem discard {x : Deed τ α} (h : M.Keeps n x P) : M.Keeps n (discard x) fun _ _ => True :=
  M.bind h fun _ _ _ _ => M.pure trivial

theorem ofExcept_bind {r : Except Error α} {f : α → Deed τ β}
    (h : ∀ a, r = .ok a → M.Keeps n (f a) Q) : M.Keeps n (Act.ofExcept r >>= f) Q :=
  M.bind (M.ofExcept (P := fun m a => m = n ∧ r = .ok a) fun _ same => ⟨rfl, same⟩)
    fun _ _ a ⟨now, same⟩ => now ▸ h a same

theorem getsExcept_bind {r : World τ → Except Error α} {f : α → Deed τ β}
    (h : ∀ w, M.seen w → ∀ a, r w = .ok a → M.Keeps n (f a) Q) :
    M.Keeps n (Act.getsExcept r >>= f) Q :=
  M.bind (M.getsExcept (P := fun m a => m = n ∧ ∃ w, M.seen w ∧ r w = .ok a)
    fun w seen _ same => ⟨rfl, w, seen, same⟩)
    fun _ _ a ⟨now, w, seen, same⟩ => now ▸ h w seen a same

theorem gets_bind {r : World τ → α} {f : α → Deed τ β}
    (h : ∀ w, M.seen w → M.Keeps n (f (r w)) Q) : M.Keeps n (Act.gets r >>= f) Q :=
  M.getsExcept_bind (r := fun w => .ok (r w)) fun w seen _ same => Except.ok.inj same ▸ h w seen

theorem mapM {xs : List α} {f : α → Deed τ β} (mono : ∀ {n m b}, n ≤ m → Q n b → Q m b)
    (h : ∀ m, n ≤ m → ∀ a ∈ xs, M.Keeps m (f a) Q) :
    M.Keeps n (xs.mapM f) fun m bs => bs.length = xs.length ∧ ∀ b ∈ bs, Q m b := by
  induction xs generalizing n with
  | nil => exact M.pure ⟨rfl, List.forall_mem_nil _⟩
  | cons a rest ih =>
    rw [List.mapM_cons]
    refine M.bind (h n le_rfl a (.head _)) fun m le b hb => ?_
    refine M.bind (ih fun k later a' there => h k (le.trans later) a' (.tail _ there))
      fun k later bs hbs => ?_
    exact M.pure ⟨congrArg (· + 1) hbs.1, List.forall_mem_cons.mpr ⟨mono later hb, hbs.2⟩⟩

theorem forM {xs : List α} {f : α → Deed τ PUnit}
    (h : ∀ m, n ≤ m → ∀ a ∈ xs, M.Keeps m (f a) fun _ _ => True) :
    M.Keeps n (xs.forM f) fun _ _ => True := by
  induction xs generalizing n with
  | nil => exact M.pure trivial
  | cons a rest ih =>
    exact M.bind (h n le_rfl a (.head _)) fun m le _ _ =>
      ih fun k later a' there => h k (le.trans later) a' (.tail _ there)

theorem foldlM {xs : List α} {f : β → α → Deed τ β}
    (h : ∀ m b a, M.Keeps m (f b a) fun _ _ => True) (b : β) :
    M.Keeps n (xs.foldlM f b) fun _ _ => True := by
  induction xs generalizing n b with
  | nil => exact M.pure trivial
  | cons a rest ih => exact M.bind (h n b a) fun _ _ b' _ => ih b'

theorem propertyOrNull (v : Value) (name : String) :
    M.Keeps n (Deed.propertyOrNull v name) fun _ _ => True := M.getsExcept fun _ _ _ _ => trivial

/-- An attribute of each object. -/
theorem attributes (objects : List α) (v : α → Value) (name : String) :
    M.Keeps n (objects.mapM fun o => Deed.propertyOrNull (v o) name) fun _ _ => True :=
  M.imp (M.mapM (Q := fun _ _ => True) (fun _ h => h) fun _ _ o _ => M.propertyOrNull (v o) name)
    fun _ _ _ => trivial

theorem keysMustHash (values : List Value) :
    M.Keeps n (Loader.keysMustHash values) fun _ _ => True := by
  refine M.gets_bind fun _ _ => ?_
  split
  · exact M.throw _
  · exact M.pure trivial

/-- Marking objects keeps to a manner if marking rows does. -/
theorem markObjects {registry : RegistryId} {names : Names}
    (h : ∀ n row, M.Keeps n (Deed.changeMarks registry (·.mark row names)) fun _ _ => True)
    (objects : List Value) : M.Keeps n (Deed.markObjects registry objects names) fun _ _ => True := by
  refine M.forM fun m _ o _ => M.getsExcept_bind fun _ _ id _ => ?_
  split
  · exact M.getsExcept_bind fun _ _ key _ => h m key
  · exact M.pure trivial

end Manner

theorem Model.slots_of_hydrate {m : Model} {row : List (Value × Value)} {e : Entity}
    (h : m.hydrate row = .ok e) : e.slots = [] := by
  unfold Model.hydrate at h
  dsimp only at h
  split at h
  · cases h
    rfl
  · cases h

theorem Query.slots_of_entity {q : Query} {l : Lookup} {row : Row} {e : Entity}
    (h : q.entity l row = .ok e) : e.slots = [] := by
  unfold Query.entity at h
  split at h
  · cases gathered : q.gatherPivot row with
    | error error =>
      rw [gathered] at h
      cases h
    | ok whole =>
      rw [gathered] at h
      exact Model.slots_of_hydrate h
  · cases h

/-! Values filed under keys are those that were put in. -/

theorem Matches.mem_of_mem_add {m : Matches} {key v x : Value}
    (h : ∃ e ∈ m.add key v, x ∈ e.2) : x = v ∨ ∃ e ∈ m, x ∈ e.2 := by
  obtain ⟨e, there, hx⟩ := h
  unfold add at there
  split at there
  · obtain ⟨e', was, rfl⟩ := List.mem_map.mp there
    split at hx
    · rcases List.mem_append.mp hx with old | new
      · exact .inr ⟨e', was, old⟩
      · exact .inl (List.mem_singleton.mp new)
    · exact .inr ⟨e', was, hx⟩
  · rcases List.mem_append.mp there with old | new
    · exact .inr ⟨e, old, hx⟩
    · obtain rfl := List.mem_singleton.mp new
      exact .inl (List.mem_singleton.mp hx)

theorem Matches.mem_of_mem_under {found : List (Value × ObjectId)} {key x : Value}
    (h : x ∈ (found.foldl (fun (m : Matches) (e : Value × ObjectId) => m.add e.1 (.object e.2))
      []).under key) : ∃ e ∈ found, x = .object e.2 := by
  have filed : ∀ m : Matches, (∃ e ∈ found.foldl
      (fun (m : Matches) (e : Value × ObjectId) => m.add e.1 (.object e.2)) m, x ∈ e.2) →
        (∃ e ∈ found, x = .object e.2) ∨ ∃ e ∈ m, x ∈ e.2 := by
    intro m there
    clear h
    induction found generalizing m with
    | nil => exact .inr there
    | cons e rest ih =>
      obtain ⟨e', later, same⟩ | before := ih _ there
      · exact .inl ⟨e', .tail _ later, same⟩
      · exact (mem_of_mem_add before).imp_left fun same => ⟨e, .head _, same⟩
  unfold under at h
  cases looked : Value.lookup? key (found.foldl
      (fun (m : Matches) (e : Value × ObjectId) => m.add e.1 (.object e.2)) []) with
  | none =>
    rw [looked] at h
    cases h
  | some values =>
    rw [looked] at h
    obtain ⟨e, there, rfl⟩ := Value.mem_of_lookup? looked
    exact (filed [] ⟨e, there, h⟩).resolve_right (by simp)

namespace Manner

variable {τ : Type} (M : Manner τ) {n : Nat}

theorem hydrate (q : Query) (row : Row) :
    M.Keeps n (q.hydrate row) fun m o => M.own m (.object o) :=
  M.getsExcept_bind fun _ _ _ made => M.newObject (Query.slots_of_entity made)

/-- Loading what a query asks for keeps to a manner, on objects just fetched. -/
def Nests (load : LoadPaths τ) (registry : Value) (q : Query) : Prop :=
  q.loads.paths ≠ [] → ∀ (n : Nat) (objects : List Value), (∀ v ∈ objects, M.own n v) →
    M.Keeps n (load (.ofRequest q.loads registry false) objects q.loads.paths) fun _ _ => True

theorem fetch {load : LoadPaths τ} {q : Query} {registry : Value}
    (nests : M.Nests load registry q) (keyColumn : Value) :
    M.Keeps n (q.fetch load keyColumn registry) fun m page =>
      ∀ o ∈ page.members, M.own m (.object o) := by
  refine M.ofExcept_bind fun f passed => M.bind (M.execute passed _) fun m _ rows _ => ?_
  refine M.bind (M.mapM (Q := fun m p => M.own m (.object p.2)) (M.own_mono ·) fun _ _ row _ => ?_)
    fun m _ made hmade => ?_
  · refine M.ofExcept_bind fun _ _ => ?_
    exact M.bind (M.hydrate q _) fun _ _ o ho => M.pure ho
  · have members : ∀ o ∈ made.map (·.2), M.own m (.object o) := by
      simpa using fun o key there => hmade.2 (key, o) there
    have rest {k : Nat} (le : m ≤ k) : M.Keeps k (Deed.adopt (made.map (·.2)) >>= fun collection =>
        Pure.pure (⟨collection, made.map (·.2), if keyColumn.isNull then [] else made.map (·.1)⟩ :
          Query.Fetched)) fun m page => ∀ o ∈ page.members, M.own m (.object o) :=
      M.bind (M.adopt fun o there => M.own_mono le (members o there)) fun _ later _ _ =>
        M.pure fun o there => M.own_mono (le.trans later) (members o there)
    dsimp only
    split
    · next asks =>
      simp only [Bool.and_eq_true, Bool.not_eq_true', List.isEmpty_eq_false_iff] at asks
      refine M.bind (nests asks.1 m _ fun v there => ?_) fun _ le _ _ => rest le
      obtain ⟨o, ho, rfl⟩ := List.mem_map.mp there
      exact members o ho
    · exact rest le_rfl

/-- The queries that a relation is fetched with, of which each keeps to a manner in what it loads. -/
structure Fetches (load : LoadPaths τ) (loader : Loader) (d : Descriptor) (parent : Model)
    (path : String) : Prop where
  chunk : ∀ w, M.seen w → ∀ keys q, loader.chunkQuery w.toEnv d parent path keys = .ok q →
    M.Nests load loader.registry q
  target : d.kind = .morphTo → ∀ w, M.seen w → ∀ v m, w.asModel v = .ok m → ∀ w', M.seen w' →
    ∀ keys q, loader.targetQuery w'.toEnv d m path keys = .ok q → M.Nests load loader.registry q

variable {load : LoadPaths τ} {loader : Loader} {d : Descriptor} {parent : Model} {path : String}

theorem fetchChunk (fetches : M.Fetches load loader d parent path) (keys : List Value) :
    M.Keeps n (Loader.fetchChunk load loader d parent path keys) fun m pairs =>
      ∀ p ∈ pairs, M.own m (.object p.2) := by
  refine M.getsExcept_bind fun w seen q built => ?_
  have nests := fetches.chunk w seen keys q built
  split
  · refine M.bind (M.fetch nests _) fun _ _ page own => ?_
    refine M.bind (M.keysMustHash _) fun _ le _ _ => M.pure fun p there => ?_
    exact M.own_mono le (own p.2 (List.of_mem_zip there).2)
  · refine M.bind (M.fetch nests _) fun _ _ page own => ?_
    refine M.bind (M.attributes page.members .object _) fun _ le keys _ => ?_
    refine M.bind (M.keysMustHash _) fun _ later _ _ => M.pure fun p there => ?_
    exact M.own_mono (le.trans later) (own p.2 (List.of_mem_zip there).2)

/-- One value for each object, of which each holds own objects. -/
def Finds (objects : List Value) (n : Nat) (values : List Value) : Prop :=
  values.length = objects.length ∧ ∀ v ∈ values, ∀ x ∈ v.held, M.own n x

theorem fetchRelated (fetches : M.Fetches load loader d parent path) (objects : List Value) :
    M.Keeps n (Loader.fetchRelated load loader d parent path objects) (M.Finds objects) := by
  refine M.bind (M.attributes objects id _) fun _ _ parentKeys _ => ?_
  refine M.bind (M.keysMustHash _) fun _ _ _ _ => M.ofExcept_bind fun chunks _ => ?_
  refine M.bind (M.mapM (Q := fun m (pairs : List (Value × ObjectId)) => ∀ p ∈ pairs,
      M.own m (.object p.2)) (fun le h p there => M.own_mono le (h p there)) fun _ _ keys _ => M.fetchChunk fetches keys)
    fun m _ pages hpages => ?_
  have own : ∀ p ∈ pages.flatten, M.own m (.object p.2) := by
    intro p there
    obtain ⟨page, hpage, hp⟩ := List.mem_flatten.mp there
    exact hpages.2 page hpage p hp
  refine M.bind (M.discard (M.adopt fun o there => ?_)) fun k le _ _ => ?_
  · obtain ⟨p, hp, rfl⟩ := List.mem_map.mp there
    exact own p hp
  · refine M.mapM (fun le h x hx => M.own_mono le (h x hx)) fun k' le' o _ => ?_
    refine M.bind (M.propertyOrNull _ _) fun k'' le'' key _ => M.pure fun x hx => ?_
    revert hx
    generalize same : Matches.under _ key = found
    intro hx
    have mine : ∀ v ∈ found, M.own k'' v ∧ v.held = [v] := by
      intro v there
      obtain ⟨p, hp, rfl⟩ := Matches.mem_of_mem_under (same ▸ there)
      exact ⟨M.own_mono (le.trans (le'.trans le'')) (own p hp), rfl⟩
    split at hx
    · cases found with
      | nil => cases hx
      | cons v rest =>
        rw [List.headD_cons, (mine v (.head _)).2, List.mem_singleton] at hx
        exact hx ▸ (mine v (.head _)).1
    · exact (mine x hx).1

theorem targetsByTag (d : Descriptor) (path : String) (objects : List Value) :
    M.Keeps n (Loader.targetsByTag d path objects) fun _ _ => True := by
  refine M.foldlM (fun _ groups o => M.bind (M.propertyOrNull _ _) fun _ _ tag _ => ?_) _
  split
  · exact M.pure trivial
  · refine M.getsExcept_bind fun _ _ target _ => ?_
    split
    · refine M.gets_bind fun _ _ => ?_
      exact M.bind (M.warn _ _) fun _ _ _ _ => M.pure trivial
    · exact M.bind (M.keysMustHash _) fun _ _ _ _ => M.pure trivial

/-- The targets of one statement, each with its identifier. -/
theorem targetPage {m : Model}
    (nests : ∀ w, M.seen w → ∀ keys q, loader.targetQuery w.toEnv d m path keys = .ok q →
      M.Nests load loader.registry q) (keys : List Value) :
    M.Keeps n (do
      let q ← Act.getsExcept fun w => loader.targetQuery w.toEnv d m path keys
      let page ← q.fetch load .null loader.registry
      let ids ← page.members.mapM fun o => Act.getsExcept fun w => w.requireProperty (.object o) "id"
      Loader.keysMustHash ids
      return ids.zip page.members) fun m pairs => ∀ p ∈ pairs, M.own m (.object p.2) := by
  refine M.getsExcept_bind fun w seen q built => ?_
  refine M.bind (M.fetch (nests w seen keys q built) _) fun _ _ page own => ?_
  refine M.bind (M.mapM (Q := fun _ _ => True) (fun _ h => h)
    fun _ _ _ _ => M.getsExcept fun _ _ _ _ => trivial) fun _ le ids _ => ?_
  refine M.bind (M.keysMustHash _) fun _ later _ _ => M.pure fun p there => ?_
  exact M.own_mono (le.trans later) (own p.2 (List.of_mem_zip there).2)

theorem fetchTargets (fetches : M.Fetches load loader d parent path) (kind : d.kind = .morphTo)
    (target : Value) (members : List Value) :
    M.Keeps n (Loader.fetchTargets load loader d path target members) fun m found =>
      ∀ p ∈ found, ∀ x ∈ p.2.held, M.own m x := by
  refine M.getsExcept_bind fun before seen_ m known => ?_
  refine M.bind (M.attributes members id _) fun _ _ ids _ => ?_
  refine M.bind (M.keysMustHash _) fun _ _ _ _ => M.ofExcept_bind fun chunks _ => ?_
  refine M.bind (M.mapM (Q := fun m (pairs : List (Value × ObjectId)) => ∀ p ∈ pairs,
      M.own m (.object p.2)) (fun le h p there => M.own_mono le (h p there)) fun _ _ keys _ =>
        M.targetPage (fetches.target kind before seen_ target m known) keys) fun m _ pages hpages => ?_
  have own : ∀ p ∈ pages.flatten, M.own m (.object p.2) := by
    intro p there
    obtain ⟨page, hpage, hp⟩ := List.mem_flatten.mp there
    exact hpages.2 page hpage p hp
  refine M.bind (M.discard (M.adopt fun o there => ?_)) fun k le _ _ => ?_
  · obtain ⟨p, hp, rfl⟩ := List.mem_map.mp there
    exact own p hp
  · refine M.imp (M.mapM (Q := fun m p => ∀ x ∈ p.2.held, M.own m x)
      (fun le h x hx => M.own_mono le (h x hx)) fun k' le' o _ => ?_) fun _ _ found => found.2
    refine M.bind (M.propertyOrNull _ _) fun k'' le'' id _ => M.pure fun x hx => ?_
    cases looked : Value.lookup? id pages.flatten with
    | none =>
      rw [looked] at hx
      cases hx
    | some other =>
      rw [looked] at hx
      obtain ⟨p, hp, rfl⟩ := Value.mem_of_lookup? looked
      rw [List.mem_singleton.mp hx]
      exact M.own_mono (le.trans (le'.trans le'')) (own p hp)

theorem fetchMorphTo (fetches : M.Fetches load loader d parent path) (kind : d.kind = .morphTo)
    (objects : List Value) :
    M.Keeps n (Loader.fetchMorphTo load loader d path objects) (M.Finds objects) := by
  refine M.bind (M.targetsByTag d path objects) fun _ _ groups _ => ?_
  refine M.bind (M.mapM (fun le h p hp x hx => M.own_mono le (h p hp x hx))
    fun _ _ group _ => M.fetchTargets fetches kind group.1 group.2) fun _ _ found hfound => ?_
  refine M.pure ⟨List.length_map _, fun v there x hx => ?_⟩
  obtain ⟨o, _, rfl⟩ := List.mem_map.mp there
  cases looked : Value.lookup? o found.flatten.reverse with
  | none =>
    rw [looked] at hx
    cases hx
  | some value =>
    rw [looked] at hx
    obtain ⟨p, hp, rfl⟩ := Value.mem_of_lookup? looked
    obtain ⟨targets, htargets, hp⟩ := List.mem_flatten.mp (List.mem_reverse.mp hp)
    exact hfound.2 targets htargets p hp x hx

/-- The values of a relation for objects of one class. -/
theorem fetching (fetches : M.Fetches load loader d parent path) (pending : List Value) :
    M.Keeps n (Loader.fetching load loader d parent path pending) (M.Finds pending) := by
  unfold Loader.fetching
  split
  · next kind => exact M.fetchMorphTo fetches (by simpa using kind) pending
  · exact M.fetchRelated fetches pending

/-- Fetching a relation and setting it keeps to a manner if its first and its last piece do. -/
theorem loadPending (fetches : M.Fetches load loader d parent path) {pending : List Value}
    (slot : Value)
    (begin : ∀ m, n ≤ m → ∀ v ∈ pending,
      M.Keeps m (Deed.modifyEntity v (·.beginLoading slot)) fun _ _ => True)
    (conclude : ∀ m, n ≤ m → ∀ outcome, (∀ values, outcome = .ok values → M.Finds pending m values) →
      M.Keeps m (loader.conclude slot pending outcome) fun _ _ => True) :
    M.Keeps n (Loader.loadPending load loader d parent path slot pending) fun _ _ => True := by
  rw [Loader.loadPending_eq]
  refine M.bind (M.forM begin) fun k le _ _ => ?_
  refine M.bind (M.attempt (M.fetching fetches pending)) fun k' later outcome found => ?_
  exact conclude k' (le.trans later) outcome found

/-- Setting a relation on objects, which are marked with it then, keeps to a manner if setting and
marking do. -/
theorem settle
    (set : ∀ {n : Nat} {v x : Value}, M.own n v → (∀ y ∈ x.held, M.own n y) → ∀ name : String,
      M.Keeps n (Deed.modifyEntity v (·.setRelation (.text name) x)) fun _ _ => True)
    (mark : ∀ n registry objects names,
      M.Keeps n (Deed.markObjects registry objects names) fun _ _ => True)
    {objects values : List Value} (own : ∀ v ∈ objects, M.own n v)
    (among : ∀ x ∈ values, ∀ y ∈ x.held, M.own n y) (name : String) (given : Value) :
    M.Keeps n (Loader.settle (.text name) given objects values) fun _ _ => True := by
  refine M.bind (M.forM fun _ le p there => ?_) fun _ _ _ _ => M.ofExcept_bind fun _ _ => mark _ _ _ _
  obtain ⟨o, v⟩ := p
  exact set (M.own_mono le (own o (List.of_mem_zip there).1))
    (fun y hy => M.own_mono le (among v (List.of_mem_zip there).2 y hy)) name

/-- Loading relations keeps to a manner in which own objects are marked as being loaded, own objects
set on them, and followed. -/
structure Loads : Prop where
  begin : ∀ {n : Nat} {v : Value}, M.own n v → ∀ name : String,
    M.Keeps n (Deed.modifyEntity v (·.beginLoading (.text name))) fun _ _ => True
  abandon : ∀ {n : Nat} {v : Value}, M.own n v → ∀ name : String,
    M.Keeps n (Deed.modifyEntity v (·.abandonLoading (.text name))) fun _ _ => True
  settle : ∀ {n : Nat} {objects values : List Value}, (∀ v ∈ objects, M.own n v) →
    values.length = objects.length → (∀ x ∈ values, ∀ y ∈ x.held, M.own n y) → ∀ (name : String)
      (given : Value), M.Keeps n (Loader.settle (.text name) given objects values) fun _ _ => True
  children : ∀ {n : Nat} {objects : List Value}, (∀ v ∈ objects, M.own n v) → ∀ name,
    M.Keeps n (Loader.children objects name) fun m below => ∀ v ∈ below, M.own m v

/-- A way of loading that keeps to the manner on own objects. -/
def Tends (load : LoadPaths τ) : Prop :=
  ∀ (n : Nat) loader (objects : List Value) paths, (∀ v ∈ objects, M.own n v) →
    M.Keeps n (load loader objects paths) fun _ _ => True

variable {M}

theorem Tends.fetches (tends : M.Tends load) : M.Fetches load loader d parent path :=
  ⟨fun _ _ _ _ _ _ n objects own => tends n _ objects _ own,
    fun _ _ _ _ _ _ _ _ _ _ _ _ n objects own => tends n _ objects _ own⟩

/-- Fetching a relation and setting it on own objects keeps to the manner. -/
theorem Loads.loadPending (h : M.Loads) (tends : M.Tends load) (m : Model) (name : String)
    {pending : List Value} (own : ∀ v ∈ pending, M.own n v) :
    M.Keeps n (Loader.loadPending load loader d m path (.text name) pending) fun _ _ => True := by
  have still {k : Nat} (le : n ≤ k) : ∀ v ∈ pending, M.own k v := fun v there =>
    M.own_mono le (own v there)
  refine M.loadPending tends.fetches _ (fun k le v there => h.begin (still le v there) name) ?_
  intro k le outcome found
  cases outcome with
  | error e =>
    exact M.bind (M.forM fun _ later v there => h.abandon (M.own_mono later (still le v there)) name)
      fun _ _ _ _ => M.throw e
  | ok values =>
    obtain ⟨length, among⟩ := found values rfl
    exact h.settle (still le) length among name loader.registry

/-- Loading relations keeps to a manner in which fetching a relation does, for lists of objects that are
apt to be loaded together, and own objects are followed. -/
structure Pends (M : Manner τ) (Apt : List Value → Prop) : Prop where
  apt : ∀ {n : Nat} {w : World τ} {objects : List Value}, M.seen w → (∀ v ∈ objects, M.own n v) →
    ∀ group ∈ Loader.byClass w.toEnv objects, Apt group.2
  pend : ∀ {n depth : Nat} {loader : Loader} {d : Descriptor} {m : Model} {path name : String}
    {w : World τ} {polymorphic : Bool} {objects pending : List Value}, M.Tends (Loader.below depth) →
    Apt objects → (∀ v ∈ objects, M.own n v) →
    Loader.described w.toEnv polymorphic (objects.headD .null) name = .ok (some (m, d)) →
    (∀ v ∈ pending, v ∈ objects) →
      M.Keeps n (Loader.loadPending (Loader.below depth) loader d m path (.text name) pending)
        fun _ _ => True
  children : ∀ {n : Nat} {objects : List Value}, (∀ v ∈ objects, M.own n v) → ∀ name,
    M.Keeps n (Loader.children objects name) fun m below => ∀ v ∈ below, M.own m v

theorem Loads.pends (h : M.Loads) : M.Pends fun _ => True where
  apt _ _ _ _ := trivial
  pend tends _ own _ among := h.loadPending tends _ _ fun v there => own v (among v there)
  children := h.children

namespace Pends

variable {Apt : List Value → Prop} (h : M.Pends Apt)
include h

theorem loadRelation {depth : Nat} (tends : M.Tends (Loader.below depth)) {objects : List Value}
    (apt : Apt objects) (own : ∀ v ∈ objects, M.own n v) (name : String) (at_ : Loader.Position) :
    M.Keeps n (Loader.loadRelation (Loader.below depth) loader objects name at_) fun _ _ => True := by
  refine M.getsExcept_bind fun w _ described known => ?_
  split
  · exact M.pure trivial
  · next m d _ =>
    refine M.gets_bind fun w _ => ?_
    extract_lets pending
    have among : ∀ v ∈ pending, v ∈ objects := by
      intro v there
      unfold pending at there
      split at there
      · exact there
      · exact (List.mem_filter.mp there).1
    split
    · exact M.bind (h.pend tends apt own known among) fun _ _ _ _ => M.pure trivial
    · exact M.pure trivial

end Pends

end Manner

namespace Manner

variable {τ : Type} {M : Manner τ}

namespace Pends

variable {Apt : List Value → Prop} (h : M.Pends Apt)
include h

/-- Loading keeps to the manner, nested however deep: by induction on the depth. -/
theorem loadBelow (depth : Nat) {n : Nat} (loader : Loader) {objects : List Value}
    (own : ∀ v ∈ objects, M.own n v) (paths : List Value) (at_ : Loader.Position) :
    M.Keeps n (Loader.loadBelow depth loader objects paths at_) fun _ _ => True := by
  induction depth generalizing n loader objects paths at_ with
  | zero => exact M.throw _
  | succ depth ih =>
    refine M.ofExcept_bind fun read _ => M.gets_bind fun w seen => M.forM fun m le group there => ?_
    refine M.ofExcept_bind fun segments _ => M.forM fun m' le' segment _ => ?_
    have members : ∀ v ∈ group.2, M.own m' v := fun v hv =>
      M.own_mono (le.trans le') (own v (Loader.mem_byClass.mp ⟨group, there, hv⟩).1)
    have tends : M.Tends (Loader.below depth) := fun _ loader objects paths own =>
      ih loader own paths _
    refine M.bind (h.loadRelation tends (h.apt seen own group there) members _ _)
      fun _ later found _ => ?_
    split
    · exact M.pure trivial
    · split
      · refine M.bind (h.children (fun v hv => M.own_mono later (members v hv)) _)
          fun _ _ below hbelow => ?_
        split
        · exact ih _ hbelow _ _
        · exact M.pure trivial
      · exact M.pure trivial

theorem load : M.Tends Loader.load :=
  fun _ loader _ paths own => h.loadBelow Loader.depthLimit loader own paths _

end Pends

/-- Loading keeps to the manner, nested however deep. -/
theorem Loads.loadBelow (h : M.Loads) (depth : Nat) {n : Nat} (loader : Loader)
    {objects : List Value} (own : ∀ v ∈ objects, M.own n v) (paths : List Value)
    (at_ : Loader.Position) :
    M.Keeps n (Loader.loadBelow depth loader objects paths at_) fun _ _ => True :=
  h.pends.loadBelow depth loader own paths at_

end Manner

namespace Manner

variable {τ : Type}

/-- Others keep an invariant of the world, and so do the changes that fetching makes, if the objects
that it makes count as own and only own ones are changed. Objects stay. -/
structure Upholds (pact : Pact (World τ)) (I : World τ → Prop) (own : Nat → Value → Prop) :
    Prop where
  own_mono : ∀ {n m : Nat} {v : Value}, n ≤ m → own n v → own m v
  rely : ∀ {w w' : World τ}, I w → pact.rely w w' → I w' ∧ w.objects.size ≤ w'.objects.size
  waits : ∀ {w : World τ}, I w → pact.waits w
  extended : ∀ {w : World τ} {e : Entity}, I w → e.slots = [] →
    pact.guar w (w.extended e) ∧ I (w.extended e) ∧
      own (w.extended e).objects.size (.object w.objects.size)
  adopted : ∀ {n : Nat} {w : World τ} {members : List ObjectId}, I w → n ≤ w.objects.size →
    (∀ o ∈ members, own n (.object o)) → pact.guar w (w.adopted members) ∧ I (w.adopted members)
  warned : ∀ {w : World τ} (warnings : List String), I w →
    pact.guar w { w with warnings := warnings } ∧ I { w with warnings := warnings }

variable {pact : Pact (World τ)} {I : World τ → Prop} {own : Nat → Value → Prop}

/-- What holds after a deed that upholds an invariant: there are no fewer objects, and its result is
as it should be. -/
def Upheld {α : Type} (I : World τ → Prop) (n : Nat) (P : Nat → α → Prop) (r : Except Error α)
    (w : World τ) : Prop :=
  I w ∧ n ≤ w.objects.size ∧ ∀ a, r = .ok a → ∃ m, n ≤ m ∧ m ≤ w.objects.size ∧ P m a

theorem Upheld.of {α : Type} {n : Nat} {P : Nat → α → Prop} {r : Except Error α} {w : World τ}
    (kept : I w) (le : n ≤ w.objects.size) (h : ∀ a, r = .ok a → P w.objects.size a) :
    Upheld I n P r w := ⟨kept, le, fun a same => ⟨_, le, le_rfl, h a same⟩⟩

theorem Upheld.failed {α β : Type} {n : Nat} {P : Nat → α → Prop} {Q : Nat → β → Prop} {e : Error}
    {w : World τ} (h : Upheld I n P (.error e) w) : Upheld I n Q (.error e) w :=
  ⟨h.1, h.2.1, fun _ absurd => nomatch absurd⟩

theorem Upheld.after {α : Type} {n m : Nat} {P : Nat → α → Prop} {r : Except Error α} {w : World τ}
    (h : Upheld I m P r w) (le : n ≤ m) : Upheld I n P r w := by
  refine ⟨h.1, le.trans h.2.1, fun a same => ?_⟩
  obtain ⟨k, later, within, ha⟩ := h.2.2 a same
  exact ⟨k, le.trans later, within, ha⟩

theorem Upheld.attempted {α : Type} {n : Nat} {P : Nat → α → Prop} {r : Except Error α} {w : World τ}
    (h : Upheld I n P r w) :
    Upheld I n (fun m r => ∀ a, r = .ok a → P m a) (.ok r) w := by
  refine ⟨h.1, h.2.1, fun _ same => ?_⟩
  obtain rfl := Except.ok.inj same
  cases r with
  | error e => exact ⟨n, le_rfl, h.2.1, fun _ absurd => nomatch absurd⟩
  | ok a =>
    obtain ⟨m, later, within, ha⟩ := h.2.2 a rfl
    exact ⟨m, later, within, fun _ ended => Except.ok.inj ended ▸ ha⟩

/-- The manner of what upholds an invariant beside others. -/
def upholding (h : Upholds pact I own) : Manner τ where
  Keeps n x P := ∀ w, I w → n ≤ w.objects.size → Act.Ends pact x w (Upheld I n P)
  own := own
  seen := I
  own_mono := h.own_mono
  ofExcept hr w hw le := .ofExcept ⟨hw, le, fun a same => ⟨_, le_rfl, le, hr a same⟩⟩
  bind hx hf w hw le := by
    refine (hx w hw le).bind (fun a w' there => ?_) fun _ _ there => there.failed
    obtain ⟨m, later, within, ha⟩ := there.2.2 a rfl
    exact (hf m later a ha w' there.1 within).imp fun _ _ end_ => end_.after later
  attempt hx w hw le := .attempt ((hx w hw le).imp fun _ _ there => there.attempted)
  getsExcept hf w hw le := .getsExcept ⟨hw, le, fun a same => ⟨_, le_rfl, le, hf w hw a same⟩⟩
  newObject {_ e} bare w hw le := by
    obtain ⟨guar, kept, fresh⟩ := h.extended hw bare
    have grown : w.objects.size ≤ (w.extended e).objects.size := by simp [World.extended]
    exact .modifyGet guar (.of kept (le.trans grown) fun _ same => Except.ok.inj same ▸ fresh)
  adopt members w hw le := by
    obtain ⟨guar, kept⟩ := h.adopted hw le members
    exact .modifyGet guar (.of kept (le.trans_eq (World.size_adopted w _).symm) fun _ _ => trivial)
  warn n text w hw le := by
    obtain ⟨guar, kept⟩ := h.warned (w.warnings ++ [text]) hw
    exact .modify guar (.of kept le fun _ _ => trivial)
  execute {n _ _ _} _ _ w hw le := by
    refine Act.Meets.bind (Q := fun _ w' => I w' ∧ n ≤ w'.objects.size) (.getsExcept ⟨hw, le⟩)
      (fun runner w' there => ?_) fun _ _ there =>
        ⟨there.1, there.2, fun _ absurd => nomatch absurd⟩
    refine .ask (h.waits there.1) fun _ w'' rely => ?_
    obtain ⟨kept, grown⟩ := h.rely there.1 rely
    exact .of kept (there.2.trans grown) fun _ _ => trivial

end Manner

end Relata
