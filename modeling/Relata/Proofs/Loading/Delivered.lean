import Relata.Proofs.Loading.Launch
import Relata.Proofs.Loading.Manner
import Relata.Proofs.Loading.Retained

/-!
What loading delivers. Beside others that leave what is loaded, a load of paths that are not loaded
leaves it too, and when it ends well every path can be followed on every object. What a relation is
set to may replace what another load has set meanwhile; but the relation was not loaded when this load
came to it, so seen from there nothing is lost.
-/

namespace Relata

open Act (Meets Ends)

variable {τ : Type}

/-- Others leave what is loaded, and a load may change anything but which loads are in flight. -/
structure Pact.Lenient (pact : Pact (World τ)) : Prop where
  guar : ∀ {w w' : World τ}, (∀ registry, w.SameFlights registry w') → pact.guar w w'
  rely : ∀ {w w' : World τ}, pact.rely w w' → w.Retains w'
  waits : ∀ {w w' : World τ}, pact.waits w → w.Retains w' → pact.waits w'

namespace Pact.Lenient

variable {pact : Pact (World τ)} (h : pact.Lenient) {w : World τ}
include h

theorem upholds (waits : pact.waits w) :
    Manner.Upholds pact w.Retains fun n v => ∃ id < n, v = .object id where
  own_mono := fun le ⟨id, lt, own⟩ => ⟨id, lt.trans_le le, own⟩
  rely kept others := ⟨kept.trans (h.rely others), (h.rely others).size_le⟩
  waits kept := h.waits waits kept
  extended {w' e} kept bare := by
    refine ⟨h.guar fun _ => rfl, kept.trans (.extended w' bare), _, ?_, rfl⟩
    simp [World.extended]
  adopted {_ w' members} kept _ _ := ⟨h.guar fun _ => rfl, kept.trans (.adopted w' members)⟩
  warned {w'} warnings kept := ⟨h.guar fun _ => rfl, kept.trans (.warnings w' warnings)⟩

/-- The manner of what retains a world, beside others that do so. -/
def retaining (waits : pact.waits w) : Manner τ := Manner.upholding (h.upholds waits)

theorem ends_changeMarks (registry : RegistryId) (f : Marks → Marks × Except Error Unit) :
    Ends pact (Deed.changeMarks registry f) w fun _ w' => w.Retains w' := by
  refine Meets.bind (Q := fun _ w' => w.Retains w') (.modifyGet ?_ (.registries w _))
    (fun outcome w' kept => .ofExcept kept) fun _ _ kept => kept
  exact h.guar (w.sameFlights_remarked registry _)

theorem ends_markObjects (waits : pact.waits w) (registry : RegistryId) (objects : List Value)
    (names : Names) :
    Ends pact (Deed.markObjects registry objects names) w fun _ w' => w.Retains w' := by
  refine ((h.retaining waits).markObjects (n := 0) (fun n row w' kept le => ?_) objects w
    (.refl w) (Nat.zero_le _)).imp fun _ _ there => there.1
  exact (h.ends_changeMarks registry (·.mark row names)).imp fun r w'' later =>
    .of (kept.trans later) (le.trans later.size_le) fun _ _ => trivial

theorem keeps_modifyEntity (waits : pact.waits w) {n : Nat} {v : Value} {f : Entity → Entity}
    (object : ∃ id, v = .object id) (model : ∀ e, (f e).model = e.model)
    (values : ∀ e name, (f e).value? (.text name) = e.value? (.text name)) :
    (h.retaining waits).Keeps n (Deed.modifyEntity v f) fun _ _ => True := by
  obtain ⟨id, rfl⟩ := object
  intro w' kept le
  have later := World.Retains.modified w' id model values
  exact .modify (h.guar fun _ => rfl) (.of (kept.trans later) (le.trans later.size_le) fun _ _ => trivial)

/-- Setting a relation that was not loaded, on each of some objects. -/
theorem ends_setRelations {name : String} {w' : World τ} (kept : w.Retains w')
    {pairs : List (Value × Value)}
    (fresh : ∀ p ∈ pairs, (∃ id < w.objects.size, p.1 = .object id) ∧
      w.isLoadedOn (.text name) p.1 = false)
    (bears : ∀ p ∈ pairs, w'.Bears p.2) :
    Ends pact (pairs.forM fun p => Deed.modifyEntity p.1 (·.setRelation (.text name) p.2)) w'
      fun r w'' => w.Retains w'' ∧
        (r = .ok () → ∀ p ∈ pairs, w''.isLoadedOn (.text name) p.1 = true) := by
  let Later (s t : World τ) : Prop := (w.Retains s → w.Retains t) ∧ (∀ v, s.Bears v → t.Bears v) ∧
    ∀ v, s.isLoadedOn (.text name) v = true → t.isLoadedOn (.text name) v = true
  refine (Meets.forM_each (R := Later) (fun s => ⟨id, fun _ => id, fun _ => id⟩)
    (fun h h' => ⟨h'.1 ∘ h.1, fun v => h'.2.1 v ∘ h.2.1 v, fun v => h'.2.2 v ∘ h.2.2 v⟩)
    (fun p _ _ _ _ done later => later.2.2 p.1 done) fun p there s begun => ?_).imp
      fun r w'' there => ⟨there.1.1 kept, there.2⟩
  obtain ⟨o, v⟩ := p
  obtain ⟨⟨id, lt, own⟩, unset⟩ := fresh _ there
  dsimp only at own
  subst own
  have unloaded : ∀ e, w.object? id = some e → e.value? (.text name) = none := fun e own => by
    simpa [Env.isLoadedOn, own, Entity.isLoaded] using unset
  have inside := lt.trans_le (begun.1 kept).size_le
  refine .modify (h.guar fun _ => rfl) ⟨⟨fun kept' => ?_, fun v bears => ?_, fun v loaded => ?_⟩,
    fun _ => ?_⟩
  · exact kept'.set unloaded (begun.2.1 v (bears _ there))
  · exact World.bears_modified bears id _
  · exact World.isLoadedOn_set s _ (.inl loaded)
  · exact World.isLoadedOn_set s v (.inr ⟨rfl, inside⟩)

variable {load : LoadPaths τ} {loader : Loader}

/-- Fetching a relation for objects that do not hold it, and setting it on them. -/
theorem ends_loadPending (waits : pact.waits w) {d : Descriptor} {m : Model} {path name : String}
    {pending : List Value} (fetches : (h.retaining waits).Fetches load loader d m path)
    (fresh : ∀ v ∈ pending, (∃ id < w.objects.size, v = .object id) ∧
      w.isLoadedOn (.text name) v = false) :
    Ends pact (Loader.loadPending load loader d m path (.text name) pending) w fun r w' =>
      w.Retains w' ∧ (r = .ok () → ∀ v ∈ pending, w'.isLoadedOn (.text name) v = true) := by
  let M := h.retaining waits
  have object : ∀ v ∈ pending, ∃ id, v = .object id := fun v there =>
    (fresh v there).1.imp fun _ own => own.2
  have begins : M.Keeps 0 (pending.forM fun o => Deed.modifyEntity o (·.beginLoading (.text name)))
      fun _ _ => True := M.forM fun _ _ v there =>
    h.keeps_modifyEntity waits (object v there) (fun e => e.model_beginLoading _)
      fun e name' => e.value?_beginLoading _ name'
  have abandons : M.Keeps 0
      (pending.forM fun o => Deed.modifyEntity o (·.abandonLoading (.text name)))
      fun _ _ => True := M.forM fun _ _ v there =>
    h.keeps_modifyEntity waits (object v there) (fun e => e.model_abandonLoading _)
      fun e name' => e.value?_abandonLoading _ name'
  refine Meets.bind (begins w (.refl w) (Nat.zero_le _)) (fun _ w₁ begun => ?_) fun _ _ begun =>
    ⟨begun.1, fun absurd => nomatch absurd⟩
  refine Meets.bind (M.attempt (M.fetching fetches pending) w₁ begun.1 (Nat.zero_le _))
    (fun outcome w₂ fetched => ?_) fun _ _ fetched => ⟨fetched.1, fun absurd => nomatch absurd⟩
  cases outcome with
  | error e =>
    exact Meets.bind (abandons w₂ fetched.1 (Nat.zero_le _))
      (fun _ w₃ there => .throw ⟨there.1, fun absurd => nomatch absurd⟩)
      fun _ _ there => ⟨there.1, fun absurd => nomatch absurd⟩
  | ok values =>
    obtain ⟨m, -, within, found⟩ := fetched.2.2 _ rfl
    obtain ⟨length, held⟩ := found values rfl
    have bears : ∀ p ∈ pending.zip values, w₂.Bears p.2 := fun p there =>
      World.bears_of_held fun x hx =>
        (held p.2 (List.of_mem_zip there).2 x hx).imp fun _ own => ⟨own.1.trans_le within, own.2⟩
    refine Meets.bind (h.ends_setRelations fetched.1
      (fun p there => fresh p.1 (List.of_mem_zip there).1) bears) (fun _ w₃ set => ?_)
      fun _ _ set => ⟨set.1, fun absurd => nomatch absurd⟩
    refine Meets.ofExcept_bind (fun registry _ => ?_) fun _ _ =>
      ⟨set.1, fun absurd => nomatch absurd⟩
    refine (h.ends_markObjects (h.waits waits set.1) registry _ _).imp fun r w₄ marked =>
      ⟨set.1.trans marked, fun _ v there => ?_⟩
    obtain ⟨p, hp, rfl⟩ : ∃ p ∈ pending.zip values, p.1 = v := by
      rw [← List.mem_map, List.map_fst_zip length.ge]
      exact there
    exact marked.isLoadedOn (set.2 rfl p hp)

/-- What a relation of objects of one class came to: it is loaded on all of them, or it is none of
their class and they are passed over. -/
def Handled (w w' : World τ) (polymorphic : Bool) (members : List Value) (name : String) :
    Option Descriptor → Prop
  | none => polymorphic = true ∧ ∀ v ∈ members, w.relationOn? v name = none
  | some d => ∀ v ∈ members, w.relationOn? v name = some d ∧ w'.isLoadedOn (.text name) v = true

omit h in
/-- The relation that is looked up for objects of a class is the one of that class. -/
theorem relationOn?_of_described {env : Env} {polymorphic : Bool} {v : Value} {name : String}
    {found : Option (Model × Descriptor)}
    (known : Loader.described env polymorphic v name = .ok found) :
    env.relationOn? v name = found.map (·.2) ∧ (found = none → polymorphic = true) ∧
      ∀ p ∈ found, env.modelOfValue? v = some p.1 := by
  unfold Loader.described at known
  unfold Env.relationOn?
  cases model : env.modelOfValue? v with
  | none =>
    rw [model] at known
    dsimp only at known
    split at known
    · next past =>
      obtain rfl := Except.ok.inj known
      exact ⟨rfl, fun _ => past, fun p there => absurd there (Option.not_mem_none p)⟩
    · exact nomatch known
  | some m =>
    have required := @Lookup.resolve_of_require env.toLookup m (.text name)
    rw [model] at known
    revert required known
    dsimp only [Option.bind_some]
    generalize env.resolve m (.text name) = resolved
    generalize env.require m (.text name) = result
    intro known required
    cases polymorphic with
    | true =>
      rcases resolved with e | d
      · cases known
      · obtain rfl := Except.ok.inj known
        cases d <;> simp [Except.toOption]
    | false =>
      rcases result with e | d
      · cases known
      · obtain rfl := Except.ok.inj known
        rw [required rfl]
        simp [Except.toOption]

theorem ends_loadRelation (waits : pact.waits w) (kept : loader.force = false)
    {members : List Value} (own : w.OneClass members) (name : String) (at_ : Loader.Position)
    (fetches : ∀ d m path, (h.retaining waits).Fetches load loader d m path) :
    Ends pact (Loader.loadRelation load loader members name at_) w fun r w' =>
      w.Retains w' ∧ ∀ found, r = .ok found → Handled w w' at_.polymorphic members name found := by
  have class_ : ∀ v ∈ members, w.relationOn? v name = w.relationOn? (members.headD .null) name :=
    fun v hv => by rw [Env.relationOn?, own.same v hv]; rfl
  refine Meets.getsExcept_bind (fun described known => ?_) fun _ _ =>
    ⟨.refl w, fun _ absurd => by cases absurd⟩
  obtain ⟨relation, passes, model⟩ := relationOn?_of_described known
  have all : ∀ v ∈ members, w.relationOn? v name = described.map (·.2) := fun v hv =>
    (class_ v hv).trans relation
  cases described with
  | none =>
    exact .pure ⟨.refl w, fun _ same => Except.ok.inj same ▸ ⟨passes rfl, all⟩⟩
  | some found =>
    obtain ⟨m, d⟩ := found
    refine Meets.gets_bind ?_
    simp only [kept, Bool.false_eq_true, if_false]
    have fresh : ∀ v ∈ members.filter (!w.isLoadedOn (.text name) ·),
        (∃ id < w.objects.size, v = .object id) ∧ w.isLoadedOn (.text name) v = false := by
      intro v there
      obtain ⟨hv, unset⟩ := List.mem_filter.mp there
      refine ⟨?_, by simpa using unset⟩
      have object := (own.same v hv).trans (model _ rfl)
      cases v with
      | object id => exact ⟨id, own.present _ hv id rfl, rfl⟩
      | _ => cases object
    have rest {w' : World τ} (later : w.Retains w')
        (done : ∀ v ∈ members.filter (!w.isLoadedOn (.text name) ·),
          w'.isLoadedOn (.text name) v = true) :
        ∀ v ∈ members, w.relationOn? v name = some d ∧ w'.isLoadedOn (.text name) v = true := by
      refine fun v hv => ⟨all v hv, ?_⟩
      by_cases before : w.isLoadedOn (.text name) v = true
      · exact later.isLoadedOn before
      · exact done v (List.mem_filter.mpr ⟨hv, by simpa using before⟩)
    split
    · refine Meets.bind (h.ends_loadPending waits (fetches d m _) fresh) (fun _ w' there => ?_)
        fun _ _ there => ⟨there.1, fun _ absurd => by cases absurd⟩
      exact .pure ⟨there.1, fun _ same => Except.ok.inj same ▸ rest there.1 (there.2 rfl)⟩
    · next none =>
      have none : members.filter (!w.isLoadedOn (.text name) ·) = [] := by simpa using none
      exact .pure ⟨.refl w, fun _ same => Except.ok.inj same ▸ rest (.refl w) (by simp [none])⟩

omit h in
/-- What the objects of a class hold in a relation, read at once. -/
theorem ends_children (anchored : w.Anchored) (members : List Value) (name : String) :
    Ends pact (Loader.children members name) w fun r w' => w' = w ∧ ∀ below, r = .ok below →
      (∀ o ∈ below, w.Present o) ∧ ∀ v ∈ members, ∀ x, Loader.relationOf w.toEnv v name = .ok x →
        ∀ o ∈ w.heldBy x, o ∈ below := by
  refine Meets.bind Meets.mapM_reads (fun values w' there => ?_) fun _ _ there =>
    ⟨there.1, fun _ absurd => nomatch absurd⟩
  obtain ⟨rfl, reads⟩ := there
  obtain ⟨each, only⟩ := reads values rfl
  refine Meets.gets_bind (.pure ⟨rfl, fun _ same => ?_⟩)
  obtain rfl := Except.ok.inj same
  refine ⟨fun o ho => ?_, fun v hv x loaded o ho => ?_⟩
  · obtain ⟨x, hx, held⟩ := List.mem_flatMap.mp ho
    obtain ⟨v, -, loaded⟩ := only x hx
    obtain ⟨id, e, -, own, value⟩ := Loader.relationOf_eq_ok.mp loaded
    exact (anchored own value).held o held
  · obtain ⟨x', hx, loaded'⟩ := each v hv
    obtain rfl := Except.ok.inj (loaded.symm.trans loaded')
    exact List.mem_flatMap.mpr ⟨x, hx, ho⟩

end Pact.Lenient

/-- A load that is nested at most so deep ends well only with every path followed on every object,
and it retains the world whether it ends well or not. -/
def Pact.Delivers (pact : Pact (World τ)) (depth : Nat) : Prop :=
  ∀ {w : World τ} {loader : Loader} {objects : List Value} (paths : List Value)
    (at_ : Loader.Position), pact.waits w → w.Anchored → loader.force = false →
      (∀ v ∈ objects, w.Present v) →
        Ends pact (Loader.loadBelow depth loader objects paths at_) w fun r w' =>
          w.Retains w' ∧ (r = .ok () → ∀ path : String, .text path ∈ paths → ':' ∉ path.toList →
            ∀ v ∈ objects, w'.Follows at_.polymorphic (RelationPath.steps path) v)

namespace Pact.Delivers

variable {pact : Pact (World τ)} {depth : Nat} {w : World τ}

/-- What is loaded on objects just fetched. -/
theorem fetches (ih : pact.Delivers depth) (h : pact.Lenient) (waits : pact.waits w)
    (anchored : w.Anchored) {loader : Loader} {d : Descriptor} {m : Model} {path : String} :
    (h.retaining waits).Fetches (fun loader objects paths =>
      Loader.loadBelow depth loader objects paths ⟨"", false⟩) loader d m path := by
  have nests (registry : Value) (q : Query) : (h.retaining waits).Nests (fun loader objects paths =>
      Loader.loadBelow depth loader objects paths ⟨"", false⟩) registry q := by
    intro _ n objects own w' kept le
    refine (ih q.loads.paths _ (h.waits waits kept) (kept.anchored anchored) rfl
      fun v hv id same => ?_).imp fun r w'' there =>
        .of (kept.trans there.1) (le.trans there.1.size_le) fun _ _ => trivial
    obtain ⟨id', lt, rfl⟩ := own v hv
    cases same
    exact lt.trans_le le
  exact ⟨fun _ _ _ q _ => nests _ q, fun _ _ _ _ _ _ _ _ _ q _ => nests _ q⟩

/-- One segment, with what follows it, on objects of one class. -/
theorem ends_segment (ih : pact.Delivers depth) (h : pact.Lenient) (waits : pact.waits w)
    (anchored : w.Anchored) {loader : Loader} (kept : loader.force = false) {members : List Value}
    (own : w.OneClass members) (name : String) (nested : List String) (at_ : Loader.Position) :
    Ends pact (do
      match ← Loader.loadRelation (fun loader objects paths =>
        Loader.loadBelow depth loader objects paths ⟨"", false⟩) loader members name at_ with
      | none => pure ()
      | some d =>
        if !nested.isEmpty then
          let below ← Loader.children members name
          if !below.isEmpty then
            Loader.loadBelow depth loader below (nested.map .text)
              ⟨at_.above ++ name ++ ".", d.kind == .morphTo⟩) w fun r w' =>
      w.Retains w' ∧ (r = .ok () → ∀ path : String, (RelationPath.head path).1 = name →
        ((RelationPath.head path).2 = "" ∨ (RelationPath.head path).2 ∈ nested) →
          ':' ∉ path.toList → ∀ v ∈ members,
            w'.Follows at_.polymorphic (RelationPath.steps path) v) := by
  refine Meets.bind (h.ends_loadRelation waits kept own name at_ fun _ _ _ =>
    ih.fetches h waits anchored) (fun found w₁ there => ?_) fun _ _ there =>
      ⟨there.1, fun absurd => nomatch absurd⟩
  obtain ⟨later, handled⟩ := there
  have handled := handled found rfl
  cases found with
  | none =>
    refine .pure ⟨later, fun _ path own' _ _ v hv => ?_⟩
    rw [RelationPath.steps_eq, own']
    exact fun _ => .inl ⟨handled.1, (later.relationOn? (own.present v hv) name).trans
      (handled.2 v hv)⟩
  | some d =>
    have follow {w' : World τ} (later' : w₁.Retains w')
        (below : ∀ rest ∈ nested, ':' ∉ rest.toList → ∀ v ∈ members, ∀ x,
          Loader.relationOf w₁.toEnv v name = .ok x → ∀ o ∈ w₁.heldBy x,
            w'.Follows (d.kind == .morphTo) (RelationPath.steps rest) o) :
        ∀ path : String, (RelationPath.head path).1 = name →
          ((RelationPath.head path).2 = "" ∨ (RelationPath.head path).2 ∈ nested) →
            ':' ∉ path.toList → ∀ v ∈ members,
              w'.Follows at_.polymorphic (RelationPath.steps path) v := by
      intro path own' rest bare v hv
      obtain ⟨relation, loaded⟩ := handled v hv
      obtain ⟨x, value⟩ := Env.isLoadedOn_iff.mp loaded
      obtain ⟨id, e, -, at_v, stored⟩ := Loader.relationOf_eq_ok.mp value
      have bears := later.anchored anchored at_v stored
      rw [RelationPath.steps_eq, own']
      refine fun _ => .inr ⟨d, x, ?_, later'.relationOf value, fun o ho => ?_⟩
      · exact ((later.trans later').relationOn? (own.present v hv) name).trans relation
      · rw [later'.heldBy bears] at ho
        split
        · exact trivial
        · next more =>
          exact below _ (rest.resolve_left more) (RelationPath.not_mem_rest bare) v hv x value o ho
    dsimp only
    split
    · refine Meets.bind (Pact.Lenient.ends_children (later.anchored anchored) members name)
        (fun below w₂ there => ?_) fun _ w₂ there => ⟨there.1 ▸ later, fun absurd => nomatch absurd⟩
      obtain ⟨rfl, read⟩ := there
      obtain ⟨present, covers⟩ := read below rfl
      split
      · refine (ih (nested.map .text) _ (h.waits waits later) (later.anchored anchored) kept
          present).imp fun r w' done => ⟨later.trans done.1, fun ended => follow done.1 ?_⟩
        exact fun rest hrest bare v hv x value o ho =>
          done.2 ended rest (List.mem_map_of_mem hrest) bare o (covers v hv x value o ho)
      · next none =>
        have none : below = [] := by simpa using none
        refine .pure ⟨later, fun _ => follow (.refl _) fun rest hrest bare v hv x value o ho => ?_⟩
        have absurd := covers v hv x value o ho
        rw [none] at absurd
        cases absurd
    · next none =>
      have none : nested = [] := by simpa using none
      exact .pure ⟨later, fun _ => follow (.refl _) fun rest hrest => by simp [none] at hrest⟩

end Pact.Delivers

/-- Loading delivers every path, nested however deep: by induction on the depth. -/
theorem Pact.Lenient.delivers {pact : Pact (World τ)} (h : pact.Lenient) (depth : Nat) :
    pact.Delivers depth := by
  induction depth with
  | zero => exact fun _ _ _ _ _ _ => .throw ⟨.refl _, fun absurd => nomatch absurd⟩
  | succ depth ih =>
    intro w loader objects paths at_ waits anchored kept present
    rw [Loader.loadBelow]
    refine Meets.ofExcept_bind (fun read parsed => Meets.gets_bind ?_) fun _ _ =>
      ⟨.refl w, fun absurd => nomatch absurd⟩
    have among {g : ClassKey × List Value} (hg : g ∈ Loader.byClass w.toEnv objects) :
        ∀ v ∈ g.2, w.Present v := fun v hv => present v (Loader.mem_byClass.mp ⟨g, hg, hv⟩).1
    let Done (members : List Value) (path : String) (s : World τ) : Prop :=
      ∀ v ∈ members, s.Follows at_.polymorphic (RelationPath.steps path) v
    refine (Meets.forM_each (R := World.Retains) (D := fun group s => ∀ path : String,
      .text path ∈ paths → ':' ∉ path.toList → Done group.2 path s) .refl .trans ?_ ?_).imp
          fun r w' done => ⟨done.1, fun ended path hpath bare v hv => ?_⟩
    · intro group hgroup s t begun done later path hpath bare v hv
      exact later.follows (begun.anchored anchored) (begun.present (among hgroup v hv))
        (done path hpath bare v hv)
    · intro group hgroup s begun
      have own := begun.oneClass
        (Env.oneClass_of_uniform (Loader.uniform_byClass group hgroup) (among hgroup))
      refine Meets.ofExcept_bind (fun segments cut => ?_) fun _ _ =>
        ⟨.refl s, fun absurd => nomatch absurd⟩
      refine (Meets.forM_each (R := World.Retains) (D := fun segment t => ∀ path : String,
        (RelationPath.head path).1 = segment.1 → ((RelationPath.head path).2 = "" ∨
          (RelationPath.head path).2 ∈ segment.2) → ':' ∉ path.toList → Done group.2 path t)
        .refl .trans ?_ ?_).imp fun r t done => ⟨done.1, fun ended path hpath bare => ?_⟩
      · intro segment _ t u begun' done later path head rest bare v hv
        exact later.follows ((begun.trans begun').anchored anchored)
          (begun'.present (own.present v hv)) (done path head rest bare v hv)
      · intro segment _ t begun'
        have now := begun.trans begun'
        obtain ⟨name, nested⟩ := segment
        generalize List.foldl _ loader.columns read = columns
        exact @Pact.Delivers.ends_segment _ _ _ _ ih h (h.waits waits now) (now.anchored anchored)
          ⟨columns, loader.callbacks, loader.registry, loader.force, loader.chunkSize⟩ kept _
          (begun'.oneClass own) name nested at_
      · obtain ⟨p, hp, own'⟩ := (exists_of_mapM parsed).1 _ hpath
        obtain rfl := Except.ok.inj (own'.symm.trans (RelationPath.parse_of_bare bare))
        obtain ⟨text, htext, own'⟩ := (exists_of_mapM cut).1 _ hp
        obtain rfl := Except.ok.inj own'
        obtain ⟨segment, there, head, rest⟩ := RelationPath.grouped_group htext
        exact done.2 ended segment there path head.symm rest bare
    · by_cases null : v.isNull = true
      · rw [RelationPath.steps_eq]
        exact fun some_ => absurd null (Bool.eq_false_iff.mp some_)
      · obtain ⟨g, hg, there⟩ := Loader.mem_byClass.mpr ⟨hv, Bool.eq_false_of_not_eq_true null⟩
        exact done.2 ended g hg path hpath bare v there

end Relata
