import Relata.Proofs.Loading.Delivered
import Relata.Proofs.Loading.ForAll
import Relata.Proofs.Query.Asked
import Relata.Proofs.Registry.Grounds

/-!
Where marks come from. Fetching with relations, and loading for objects at hand, marks a row only once
its object carries the relation; so does loading for all that were fetched together, except that it
goes by the first of several objects when it finds nothing to load. Every mark of a run has its grounds
in a world that there has been.
-/

namespace Relata

open Act (Meets Ends)
open Marks (Honest IsRow Grounds)

namespace Marks

variable {τ : Type} {judged : Prop} {registry : RegistryId} {w : World τ}

theorem not_ok {α : Type} {e : Error} {a : α} {P : Prop} (h : Except.error e = .ok a) : P := by
  cases h

/-- Those who mark honestly, beside others who do. -/
abbrev pact (judged : Prop) (registry : RegistryId) : Pact (World τ) :=
  Process.byLaw (Honest judged registry)

/-- Marking objects that are vouched for; each of them has to have an identifier. -/
theorem ends_markObjects {objects : List Value} {names : List String}
    (vouched : ∀ o ∈ objects, ∀ id, w.requireProperty o "id" = .ok id →
      ∀ name ∈ names, w.Vouched judged name o) (other : RegistryId) :
    Ends (pact judged registry) (Deed.markObjects other objects ((names.map Value.text).map .ok)) w
      fun r w' => (∃ registries, w' = { w with registries := registries }) ∧
        (r = .ok () → ∀ o ∈ objects, ∃ id, w.requireProperty o "id" = .ok id) := by
  let Only (s t : World τ) : Prop := ∃ registries, t = { s with registries := registries }
  refine Meets.forM_each (R := Only) (D := fun o _ => ∃ id, w.requireProperty o "id" = .ok id)
    (fun s => ⟨s.registries, rfl⟩) ?_ (fun _ _ _ _ _ has _ => has) ?_
  · rintro s _ _ ⟨_, rfl⟩ ⟨registries, rfl⟩
    exact ⟨registries, rfl⟩
  rintro o there _ ⟨registries, rfl⟩
  refine Meets.getsExcept_bind (fun id reads => ?_) fun _ _ =>
    ⟨⟨_, rfl⟩, not_ok⟩
  have reads : w.requireProperty o "id" = .ok id := reads
  split
  · refine Meets.getsExcept_bind (fun key found => ?_) fun _ _ =>
      ⟨⟨_, rfl⟩, not_ok⟩
    have isRow : IsRow { w with registries := registries } o key := by
      cases hashes : Env.key { w with registries := registries }.toEnv id with
      | error e =>
        rw [hashes] at found
        cases found
      | ok id' =>
        rw [hashes] at found
        obtain rfl := Except.ok.inj found
        exact ⟨rfl, id, reads, hashes⟩
    have still : ∀ name ∈ names, World.Vouched judged { w with registries := registries } name o :=
      fun name own => (vouched o there id reads name own).later (World.Retains.registries w _).widens
    refine Meets.bind (Q := fun _ t => Only _ t) (.modifyGet (Honest.marked isRow still other) ⟨_, rfl⟩)
      (fun outcome t later => .ofExcept ⟨later, fun _ => ⟨id, reads⟩⟩) fun _ _ later =>
        ⟨later, not_ok⟩
  · exact .pure ⟨⟨_, rfl⟩, fun _ => ⟨id, reads⟩⟩

theorem present_of_property {id : ObjectId} {x : Value} (h : w.requireProperty (.object id) "id" = .ok x) :
    id < w.objects.size := by
  refine Nat.lt_of_not_le fun beyond => ?_
  have none : w.object? id = none := Array.getElem?_eq_none beyond
  simp only [Env.requireProperty, Env.property?, none] at h
  cases h

/-- Setting a relation on objects leaves it loaded on those that there are. -/
theorem ends_setRelations (name : String) (pairs : List (Value × Value)) :
    Ends (pact judged registry)
      (pairs.forM fun p => Deed.modifyEntity p.1 (·.setRelation (.text name) p.2)) w fun r w' =>
        w.Widens w' ∧ (r = .ok () → ∀ p ∈ pairs, ∀ x, w'.requireProperty p.1 "id" = .ok x →
          w'.isLoadedOn (.text name) p.1 = true) := by
  let Later (s t : World τ) : Prop := s.Widens t ∧ t.objects.size = s.objects.size
  let Set (p : Value × Value) (t : World τ) : Prop := ∃ id, p.1 = .object id ∧
    (id < t.objects.size → t.isLoadedOn (.text name) p.1 = true)
  refine (Meets.forM_each (R := Later) (D := Set) (fun s => ⟨.refl s, rfl⟩)
    (fun h h' => ⟨h.1.trans h'.1, h'.2.trans h.2⟩) ?_ ?_).imp fun r w' there => ⟨there.1.1, ?_⟩
  · rintro p _ s t - ⟨id, own, set⟩ later
    exact ⟨id, own, fun lt => later.1.isLoadedOn (set (later.2 ▸ lt))⟩
  · rintro ⟨o, v⟩ _ s -
    cases o with
    | object id =>
      have widens : s.Widens (s.modified id (·.setRelation (.text name) v)) := by
        refine .modified s id fun e other loaded => ?_
        simp only [Entity.isLoaded, Entity.value?_setRelation_text] at loaded ⊢
        split
        · rfl
        · exact loaded
      have size : (s.modified id (·.setRelation (.text name) v)).objects.size = s.objects.size := by
        simp [World.modified]
      refine .modify (.of_same widens rfl) ⟨⟨widens, size⟩, fun _ => ⟨id, rfl, fun lt => ?_⟩⟩
      exact World.isLoadedOn_set s v (.inr ⟨rfl, size ▸ lt⟩)
    | _ => exact .throw ⟨⟨.refl s, rfl⟩, not_ok⟩
  · intro ended p hp x has
    obtain ⟨id, own, set⟩ := there.2 ended p hp
    rw [own] at has
    exact set (present_of_property has)

/-- A relation that is set on objects is vouched for when they are marked with it. -/
theorem ends_settle (name : String) (given : Value) {objects values : List Value}
    (length : values.length = objects.length) :
    Ends (pact judged registry) (Loader.settle (.text name) given objects values) w fun r w' =>
      w.Widens w' ∧ (r = .ok () → ∀ o ∈ objects, w'.isLoadedOn (.text name) o = true) := by
  refine Meets.bind (ends_setRelations name _) (fun _ w₁ set => ?_) fun _ _ set =>
    ⟨set.1, not_ok⟩
  have loaded : ∀ o ∈ objects, ∀ x, w₁.requireProperty o "id" = .ok x →
      w₁.isLoadedOn (.text name) o = true := by
    intro o there x has
    rw [← List.map_fst_zip length.ge] at there
    obtain ⟨p, hp, rfl⟩ := List.mem_map.mp there
    exact set.2 rfl p hp x has
  refine Meets.ofExcept_bind (fun other _ => ?_) fun _ _ => ⟨set.1, not_ok⟩
  have vouched : ∀ o ∈ objects, ∀ x, w₁.requireProperty o "id" = .ok x →
      ∀ n ∈ [name], w₁.Vouched judged n o := fun o there x has n own =>
    .own (List.mem_singleton.mp own ▸ loaded o there x has)
  refine (ends_markObjects vouched other).imp fun r w₂ marked => ?_
  obtain ⟨⟨registries, rfl⟩, has⟩ := marked
  refine ⟨set.1.trans (World.Retains.registries w₁ _).widens, fun ended o there => ?_⟩
  obtain ⟨x, own⟩ := has ended o there
  exact (World.Retains.registries w₁ _).widens.isLoadedOn (loaded o there x own)

variable (judged registry) in
theorem upholds (w : World τ) : Manner.Upholds (pact judged registry) w.Widens fun _ _ => True where
  own_mono _ _ := trivial
  rely kept others :=
    ⟨kept.trans (Honest.widens_of_later others), (Honest.widens_of_later others).size_le⟩
  waits _ := trivial
  extended {w' _} kept bare :=
    have later := (World.Retains.extended w' bare).widens
    ⟨.of_same later rfl, kept.trans later, trivial⟩
  adopted {_ w' members} kept _ _ :=
    have later := (World.Retains.adopted w' members).widens
    ⟨.of_same later rfl, kept.trans later⟩
  warned {w'} warnings kept :=
    have later := (World.Retains.warnings w' warnings).widens
    ⟨.of_same later rfl, kept.trans later⟩

variable (judged registry) in
/-- The manner of what marks honestly from a world on. -/
def marking (w : World τ) : Manner τ := Manner.upholding (upholds judged registry w)

theorem keeps_modifyEntity {n : Nat} (v : Value) {f : Entity → Entity}
    (model : ∀ e, (f e).model = e.model)
    (values : ∀ e name, (f e).value? (.text name) = e.value? (.text name)) :
    (marking judged registry w).Keeps n (Deed.modifyEntity v f) fun _ _ => True := by
  intro w' kept le
  cases v with
  | object id =>
    have later := (World.Retains.modified w' id model values).widens
    exact .modify (.of_same later rfl)
      (.of (kept.trans later) (le.trans later.size_le) fun _ _ => trivial)
  | _ => exact .throw (.of kept le fun _ _ => trivial)

/-- Loading marks honestly. -/
theorem loads : (marking judged registry w).Loads where
  begin {_ v} _ _ := keeps_modifyEntity v (fun e => e.model_beginLoading _)
    fun e name => e.value?_beginLoading _ name
  abandon {_ v} _ _ := keeps_modifyEntity v (fun e => e.model_abandonLoading _)
    fun e name => e.value?_abandonLoading _ name
  settle _ length _ name given w' kept le := (ends_settle name given length).imp fun _ _ there =>
    .of (kept.trans there.1) (le.trans there.1.size_le) fun _ _ => trivial
  children _ name := by
    let M := marking judged registry w
    refine M.bind (M.mapM (Q := fun _ _ => True) (fun _ _ => trivial) fun _ _ _ _ =>
      M.getsExcept fun _ _ _ _ => trivial) fun _ _ values _ => ?_
    exact M.gets_bind fun _ _ => M.pure fun _ _ => trivial

variable {load : LoadPaths τ} {loader : Loader}

/-- What a deed of this manner leaves. -/
theorem ends_of_keeps {α : Type} {x : Deed τ α}
    (h : (marking judged registry w).Keeps 0 x fun _ _ => True) :
    Ends (pact judged registry) x w fun _ w' => w.Widens w' :=
  (h w (.refl w) (Nat.zero_le _)).imp fun _ _ there => there.1

/-- Fetching a relation for objects, which carry it then. -/
theorem ends_loadPending (tends : ∀ w, (marking judged registry w).Tends load) (d : Descriptor)
    (m : Model) (path name : String) (pending : List Value) :
    Ends (pact judged registry) (Loader.loadPending load loader d m path (.text name) pending) w
      fun r w' => w.Widens w' ∧ (r = .ok () → ∀ o ∈ pending, w'.isLoadedOn (.text name) o = true) := by
  let M (w : World τ) : Manner τ := marking judged registry w
  refine Meets.bind (ends_of_keeps ((M w).forM fun _ _ o _ => loads.begin (v := o) trivial name))
    (fun _ w₁ begun => ?_) fun _ _ begun => ⟨begun, not_ok⟩
  refine Meets.bind ((M w₁).attempt ((M w₁).fetching (tends w₁).fetches pending) w₁ (.refl w₁)
    (Nat.zero_le _)) (fun outcome w₂ fetched => ?_) fun _ _ fetched =>
      ⟨begun.trans fetched.1, not_ok⟩
  have sofar := begun.trans fetched.1
  cases outcome with
  | error e =>
    refine Meets.bind (ends_of_keeps ((M w₂).forM fun _ _ o _ => loads.abandon (v := o) trivial name))
      (fun _ w₃ there => .throw ⟨sofar.trans there, not_ok⟩)
      fun _ _ there => ⟨sofar.trans there, not_ok⟩
  | ok values =>
    obtain ⟨_, -, -, found⟩ := fetched.2.2 _ rfl
    refine (ends_settle name loader.registry (found values rfl).1).imp fun r w₃ there => ?_
    exact ⟨sofar.trans there.1, there.2⟩

/-- A relation that is no matter of the row is loaded on all objects of a class. -/
theorem ends_loadRelation (tends : ∀ w, (marking judged registry w).Tends load)
    (members : List Value) (name above : String) :
    Ends (pact judged registry) (Loader.loadRelation load loader members name ⟨above, false⟩) w
      fun r w' => w.Widens w' ∧
        ((∃ found, r = .ok found) → ∀ o ∈ members, w'.isLoadedOn (.text name) o = true) := by
  refine Meets.getsExcept_bind (fun described known => ?_) fun _ _ =>
    ⟨.refl w, fun there => there.elim fun _ => not_ok⟩
  obtain ⟨-, passes, -⟩ := Pact.Lenient.relationOn?_of_described known
  cases described with
  | none => cases passes rfl
  | some found =>
    refine Meets.gets_bind ?_
    have covers : ∀ o ∈ members, w.isLoadedOn (.text name) o = true ∨
        o ∈ if loader.force then members else members.filter (!w.isLoadedOn (.text name) ·) := by
      intro o there
      split
      · exact .inr there
      · by_cases before : w.isLoadedOn (.text name) o = true
        · exact .inl before
        · exact .inr (List.mem_filter.mpr ⟨there, by simpa using before⟩)
    dsimp only
    revert covers
    generalize (if loader.force then members else
      members.filter (!w.isLoadedOn (.text name) ·)) = pending
    intro covers
    have rest {w' : World τ} (later : w.Widens w')
        (done : ∀ o ∈ pending, w'.isLoadedOn (.text name) o = true) :
        ∀ o ∈ members, w'.isLoadedOn (.text name) o = true := fun o there =>
      (covers o there).elim later.isLoadedOn (done o)
    split
    · refine Meets.bind (ends_loadPending tends found.2 found.1 _ name _) (fun _ w' there => ?_)
        fun _ _ there => ⟨there.1, fun there => there.elim fun _ => not_ok⟩
      exact .pure ⟨there.1, fun _ => rest there.1 (there.2 rfl)⟩
    · next none =>
      have none := List.isEmpty_iff.mp (by simpa using none)
      exact .pure ⟨.refl w, fun _ => rest (.refl w) (none ▸ List.forall_mem_nil _)⟩

/-- Loading leaves the first segment of each path loaded on each object; what is loaded below does not
undo it. -/
theorem ends_loadBelow (depth : Nat) (loader : Loader) (objects paths : List Value) (above : String) :
    Ends (pact judged registry) (Loader.loadBelow depth loader objects paths ⟨above, false⟩) w
      fun r w' => w.Widens w' ∧ (r = .ok () → ∀ path : String, .text path ∈ paths →
        ':' ∉ path.toList → ∀ o ∈ objects, o.isNull = false →
          w'.isLoadedOn (.text (RelationPath.head path).1) o = true) := by
  cases depth with
  | zero => exact .throw ⟨.refl w, not_ok⟩
  | succ depth =>
  rw [Loader.loadBelow]
  refine Meets.ofExcept_bind (fun read parsed => Meets.gets_bind ?_) fun _ _ =>
    ⟨.refl w, not_ok⟩
  let Has (members : List Value) (name : String) (t : World τ) : Prop :=
    ∀ o ∈ members, t.isLoadedOn (.text name) o = true
  have stays {members : List Value} {name : String} {s t : World τ} (has : Has members name s)
      (later : s.Widens t) : Has members name t := fun o there => later.isLoadedOn (has o there)
  refine (Meets.forM_each (R := World.Widens) (D := fun group t => ∀ path : String,
    .text path ∈ paths → ':' ∉ path.toList → Has group.2 (RelationPath.head path).1 t) .refl .trans
    (fun _ _ _ _ _ has later path hpath bare => stays (has path hpath bare) later) ?_).imp
      fun r w' done => ⟨done.1, fun ended path hpath bare o there some_ => ?_⟩
  · intro group _ s _
    refine Meets.ofExcept_bind (fun segments cut => ?_) fun _ _ =>
      ⟨.refl s, not_ok⟩
    refine (Meets.forM_each (R := World.Widens) (D := fun segment t => Has group.2 segment.1 t)
      .refl .trans (fun _ _ _ _ _ has later => stays has later) ?_).imp
        fun r t done => ⟨done.1, fun ended path hpath bare => ?_⟩
    · rintro ⟨name, nested⟩ _ t _
      have tends (w : World τ) : (marking judged registry w).Tends fun loader objects paths =>
          Loader.loadBelow depth loader objects paths ⟨"", false⟩ :=
        fun _ loader _ paths own => loads.loadBelow depth loader own paths _
      refine Meets.bind (ends_loadRelation tends group.2 name above) (fun found t' there => ?_)
        fun _ _ there => ⟨there.1, not_ok⟩
      refine Meets.imp (Q := fun _ u => t'.Widens u) ?_ fun _ u later =>
        ⟨there.1.trans later, fun _ => stays (there.2 ⟨found, rfl⟩) later⟩
      let M := marking judged registry t'
      refine ends_of_keeps ?_
      split
      · exact M.pure trivial
      · split
        · refine M.bind (loads.children (fun _ _ => trivial) name) fun _ _ below _ => ?_
          split
          · exact loads.loadBelow depth _ (fun _ _ => trivial) _ _
          · exact M.pure trivial
        · exact M.pure trivial
    · obtain ⟨p, hp, own⟩ := (exists_of_mapM parsed).1 _ hpath
      obtain rfl := Except.ok.inj (own.symm.trans (RelationPath.parse_of_bare bare))
      obtain ⟨text, htext, own⟩ := (exists_of_mapM cut).1 _ hp
      obtain rfl := Except.ok.inj own
      obtain ⟨segment, hsegment, head, -⟩ := RelationPath.grouped_group htext
      exact head ▸ done.2 ended segment hsegment
  · obtain ⟨group, hgroup, member⟩ := Loader.mem_byClass.mpr ⟨there, some_⟩
    exact done.2 ended group hgroup path hpath bare o member

end Marks

end Relata
