import Relata.Proofs.Loading.Coalesced
import Relata.Proofs.Loading.Growth
import Relata.Proofs.Loading.Targets

/-!
What copies of a row come to hold. A call on a copy shares the load that is carried out for another
one, and takes over from it what its own object lacks. Where two copies agree in the columns that a
relation reads, what is fetched for one of them is fetched for the other in the same way: with the
same statements, and to the same objects. Objects without an identifier go by one key as well, but
are no copies of one another and take nothing over.
-/

namespace Relata

open Act (Meets)

/-- The columns of an object by which the rows that belong to it are found. -/
def Descriptor.readColumns (d : Descriptor) : List String :=
  if d.kind == .morphTo then [Descriptor.written d.typeColumn, Descriptor.written d.idColumn]
  else [Descriptor.written d.parentAttribute]

namespace Loader

variable {τ : Type} (load : LoadPaths τ) (loader : Loader) (d : Descriptor) (parent : Model)
  (path : String)

/-- The objects that belong to keys, filed under them. -/
def foundUnder (keys : List Value) : Deed τ Matches := do
  keysMustHash (keys.filter (!·.isNull))
  let chunks ← Act.ofExcept (chunks loader.chunkSize (distinctKeys keys))
  let pages ← chunks.mapM fun keys => fetchChunk load loader d parent path keys
  let related := pages.flatten
  discard (Deed.adopt (related.map (·.2)))
  return related.foldl (fun (m : Matches) (key, o) => m.add key (.object o)) []

theorem fetchRelated_one (o : Value) : fetchRelated load loader d parent path [o] = (do
    let key ← Deed.propertyOrNull o (Descriptor.written d.parentAttribute)
    let found ← foundUnder load loader d parent path [key]
    let key ← Deed.propertyOrNull o (Descriptor.written d.parentAttribute)
    let mine := found.under key
    return [if d.kind.isSingle then mine.headD .null else .list mine]) := by
  simp [fetchRelated, foundUnder]

theorem targetsByTag_one (o : Value) :
    (targetsByTag d path [o] : Deed τ _) = targetOf d path o >>= fun found =>
      pure (found.elim [] fun target => [(target, [o])]) := by
  rw [targetsByTag_eq]
  simp [Matches.add]

/-- The targets that identifiers belong to. -/
def targetsUnder (m : Model) (ids : List Value) : Deed τ (List (Value × ObjectId)) := do
  keysMustHash (ids.filter (!·.isNull))
  let chunks ← Act.ofExcept (chunks loader.chunkSize (distinctKeys ids))
  let pages ← chunks.mapM fun keys => do
    let q ← Act.getsExcept fun w => loader.targetQuery w.toEnv d m path keys
    let page ← q.fetch load .null loader.registry
    let ids ← page.members.mapM fun o => Act.getsExcept fun w => w.requireProperty (.object o) "id"
    keysMustHash ids
    return ids.zip page.members
  let fetched := pages.flatten
  discard (Deed.adopt (fetched.map (·.2)))
  return fetched

theorem fetchMorphTo_one (id : ObjectId) : fetchMorphTo load loader d path [.object id] = (do
    match ← targetOf d path (.object id) with
    | none => return [.null]
    | some target =>
      let m ← Act.getsExcept fun w => w.asModel target
      let key ← Deed.propertyOrNull (.object id) (Descriptor.written d.idColumn)
      let found ← targetsUnder load loader d path m [key]
      let key ← Deed.propertyOrNull (.object id) (Descriptor.written d.idColumn)
      return [((Value.lookup? key found).map .object).getD .null]) := by
  unfold fetchMorphTo
  rw [targetsByTag_one, bind_assoc]
  refine bind_congr fun found => ?_
  cases found with
  | none => simp [Value.lookup?]
  | some target => simp [fetchTargets, targetsUnder, Value.lookup?, Value.same]

end Loader

namespace Manner

variable {τ : Type} {n : Nat} {load : LoadPaths τ} {loader : Loader} {d : Descriptor}
  {parent : Model} {path : String}

theorem foundUnder (M : Manner τ) (fetches : M.Fetches load loader d parent path)
    (keys : List Value) :
    M.Keeps n (Loader.foundUnder load loader d parent path keys) fun _ _ => True := by
  refine M.bind (M.keysMustHash _) fun _ _ _ _ => M.ofExcept_bind fun chunks _ => ?_
  refine M.bind (M.mapM (Q := fun m (pairs : List (Value × ObjectId)) => ∀ p ∈ pairs,
    M.own m (.object p.2)) (fun le h p there => M.own_mono le (h p there))
    fun _ _ keys _ => M.fetchChunk fetches keys) fun m _ pages own => ?_
  refine M.bind (M.discard (M.adopt fun o there => ?_)) fun _ _ _ _ => M.pure trivial
  obtain ⟨p, hp, rfl⟩ := List.mem_map.mp there
  obtain ⟨page, hpage, hp⟩ := List.mem_flatten.mp hp
  exact own.2 page hpage p hp

theorem targetsUnder (M : Manner τ) {m : Model}
    (nests : ∀ w, M.seen w → ∀ keys q, loader.targetQuery w.toEnv d m path keys = .ok q →
      M.Nests load loader.registry q) (ids : List Value) :
    M.Keeps n (Loader.targetsUnder load loader d path m ids) fun _ _ => True := by
  refine M.bind (M.keysMustHash _) fun _ _ _ _ => M.ofExcept_bind fun chunks _ => ?_
  refine M.bind (M.mapM (Q := fun m (pairs : List (Value × ObjectId)) => ∀ p ∈ pairs,
    M.own m (.object p.2)) (fun le h p there => M.own_mono le (h p there))
    fun _ _ keys _ => M.targetPage nests keys) fun m _ pages own => ?_
  refine M.bind (M.discard (M.adopt fun o there => ?_)) fun _ _ _ _ => M.pure trivial
  obtain ⟨p, hp, rfl⟩ := List.mem_map.mp there
  obtain ⟨page, hpage, hp⟩ := List.mem_flatten.mp hp
  exact own.2 page hpage p hp

/-- Two objects of one class that show the same in the columns that a relation reads, wherever they
are read. -/
structure Agree (I : World τ → Prop) (d : Descriptor) (a b : Value) : Prop where
  className : ∀ w, I w → w.className a = w.className b
  columns : ∀ w, I w → ∀ column ∈ d.readColumns, w.propertyOrNull a column = w.propertyOrNull b column

variable {pact : Pact (World τ)} {I : World τ → Prop} {own : Nat → Value → Prop} {a b : ObjectId}
  {w : World τ}

theorem Agree.reads (agree : Agree I d (.object a) (.object b)) {column : String}
    (own : column ∈ d.readColumns) (kept : I w) :
    Meets pact (Deed.propertyOrNull (.object a) column) (Deed.propertyOrNull (.object b) column) w
      fun _ w' => I w' :=
  .getsExcept_congr (agree.columns w kept column own) kept

theorem Agree.meets_targetOf (h : Upholds pact I own) (agree : Agree I d (.object a) (.object b))
    (kind : d.kind = .morphTo) (kept : I w) :
    Meets pact (Loader.targetOf d path (.object a)) (Loader.targetOf d path (.object b)) w
      fun _ w' => I w' := by
  have reads : Descriptor.written d.typeColumn ∈ d.readColumns := by simp [Descriptor.readColumns, kind]
  refine (agree.reads reads kept).bind (fun tag w kept => ?_) fun _ _ => id
  split
  · exact .pure kept
  · refine Meets.getsExcept_bind (fun target _ => ?_) fun _ _ => kept
    split
    · have named : (Except.ok (w.className (.object a), w.shown tag) : Except Error _) =
          .ok (w.className (.object b), w.shown tag) := by rw [agree.className w kept]
      refine Meets.bind (Meets.getsExcept_congr (Q := fun _ w' => I w') named kept)
        (fun words w kept => ?_) fun _ _ there => there
      have warned (text : String) := h.warned (w.warnings ++ [text]) kept
      exact Meets.bind (Q := fun _ w' => I w') (.modify (warned _).1 (warned _).2) (fun _ _ kept => .pure kept)
        fun _ _ there => there
    · exact Meets.bind (Q := fun _ w' => I w') (((upholding h).keysMustHash (n := 0) [target] w kept
        (Nat.zero_le _)).imp fun _ _ there => there.1) (fun _ _ kept => .pure kept) fun _ _ there => there

/-- The values of a relation are the same for either of two objects that agree. -/
theorem Agree.meets_fetching (h : Upholds pact I own)
    (fetches : (upholding h).Fetches load loader d parent path)
    (agree : Agree I d (.object a) (.object b)) (kept : I w) :
    Meets pact
      (if d.kind == .morphTo then Loader.fetchMorphTo load loader d path [.object a]
        else Loader.fetchRelated load loader d parent path [.object a])
      (if d.kind == .morphTo then Loader.fetchMorphTo load loader d path [.object b]
        else Loader.fetchRelated load loader d parent path [.object b]) w fun _ w' => I w' := by
  have begun {α : Type} {x : Deed τ α} {P : Nat → α → Prop} (keeps : (upholding h).Keeps 0 x P)
      {w : World τ} (kept : I w) : Act.Ends pact x w fun _ w' => I w' :=
    (keeps w kept (Nat.zero_le _)).imp fun _ _ there => there.1
  split
  · next kind =>
    have kind : d.kind = .morphTo := by simpa using kind
    have reads : Descriptor.written d.idColumn ∈ d.readColumns := by
      simp [Descriptor.readColumns, kind]
    rw [Loader.fetchMorphTo_one, Loader.fetchMorphTo_one]
    refine (agree.meets_targetOf h kind kept).bind (fun target w kept => ?_) fun _ _ => id
    cases target with
    | none => exact .pure kept
    | some target =>
      refine Meets.getsExcept_bind (fun m known => ?_) fun _ _ => kept
      refine (agree.reads reads kept).bind (fun key w' kept' => ?_) fun _ _ => id
      refine (begun ((upholding h).targetsUnder (fetches.target kind w kept target m known) [key])
        kept').bind (fun found w kept => ?_) fun _ _ => id
      exact (agree.reads reads kept).bind (fun _ _ kept => .pure kept) fun _ _ => id
  · next kind =>
    have reads : Descriptor.written d.parentAttribute ∈ d.readColumns := by
      simp [Descriptor.readColumns, kind]
    rw [Loader.fetchRelated_one, Loader.fetchRelated_one]
    refine (agree.reads reads kept).bind (fun key w kept => ?_) fun _ _ => id
    refine (begun ((upholding h).foundUnder fetches [key]) kept).bind (fun found w kept => ?_)
      fun _ _ => id
    exact (agree.reads reads kept).bind (fun _ _ kept => .pure kept) fun _ _ => id

end Manner

namespace Fellows

variable {τ : Type} {g : Fellows τ} {runner : Request → Deed τ (List Row)} {x : Joint τ ForAll}
  {w : World τ} {c : ForAll} {r : LoadRequest} {asked done : List String} {row : RowKey}

/-- Two objects of one class that hold the same in their columns. -/
def SameColumns (g : Fellows τ) (a b : ObjectId) : Prop :=
  ∃ e e', g.start.object? a = some e ∧ g.start.object? b = some e' ∧ e'.model = e.model ∧
    e'.fields = e.fields ∧ e'.extra = e.extra

/-- While a load for one object goes on, each relation that it has yet to fetch goes the same way for
another object, if the relation is found by columns that are no relations themselves. -/
def FetchesAlike (g : Fellows τ) (runner : Request → Deed τ (List Row)) (c : ForAll) (r : LoadRequest)
    (other : ObjectId) : Prop :=
  ∀ done w, g.Stage (g.targets c.self) done w → ∀ name ∈ g.names, name ∉ done →
    ∀ m d, g.HasRelation g.names m name d → (∀ column ∈ d.readColumns, m.Plain column) →
      let fetched (id : ObjectId) : Deed τ (List Value) :=
        if d.kind == .morphTo
        then Loader.fetchMorphTo Loader.nested (.ofRequest r c.given false) d name [.object id]
        else Loader.fetchRelated Loader.nested (.ofRequest r c.given false) d m name [.object id]
      Meets ((g.terms runner).pact c) (fetched c.self) (fetched other) w fun _ _ => True

/-- Columns stay what they were, and so what is read off them. -/
theorem SameColumns.agree {a b : ObjectId} (same : g.SameColumns a b) (ha : a ∈ g.objects)
    (hb : b ∈ g.objects) {m : Model} {d : Descriptor}
    (model : g.start.modelOfValue? (.object a) = some m)
    (plain : ∀ column ∈ d.readColumns, m.Plain column) {on : List ObjectId} :
    Manner.Agree (g.Stage on done) d (.object a) (.object b) := by
  obtain ⟨e, e', own, own', one, fields, extra⟩ := same
  have known : g.start.catalog.model? e.model = some m := by
    simpa [Env.modelOfValue?, own, Env.modelOf?] using model
  have holds {w : World τ} (stage : g.Stage on done w) : w.Holds a e ∧ w.Holds b e := by
    obtain ⟨now, there, kin⟩ := stage.objects a ha e own
    obtain ⟨now', there', kin'⟩ := stage.objects b hb e' own'
    exact ⟨⟨now, there, kin.model, kin.fields, kin.extra⟩, now', there', kin'.model.trans one,
      kin'.fields.trans fields, kin'.extra.trans extra⟩
  refine ⟨fun w stage => ?_, fun w stage column own => ?_⟩
  · obtain ⟨⟨_, there, model, -⟩, _, there', model', -⟩ := holds stage
    simp [Env.className, there, there', Env.modelOf?, model, model']
  · have known : w.catalog.model? e.model = some m := stage.lookup ▸ known
    obtain ⟨first, second⟩ := holds stage
    rw [first.propertyOrNull known (plain column own), second.propertyOrNull known (plain column own)]

theorem Stands.fetches_alike (h : g.Stands) (member : c.self ∈ g.objects)
    (given : Deed.registryId c.given = .ok g.registry) (asks : g.Asks c w r asked) {other : ObjectId}
    (also_ : other ∈ g.objects) (same : g.SameColumns c.self other) : g.FetchesAlike runner c r other := by
  intro done w stage name hname fresh m d relation plain
  have undertaken := h.undertaken runner member given asks
  have own : name ∈ asked := asks.perm.mem_iff.mpr hname
  have among : g.HasRelation asked m name d := ⟨own, relation.2⟩
  obtain ⟨-, ⟨id, hid, model⟩, -⟩ := relation
  -- All of the objects are of one class, and so the relation is the one of this object.
  have model : g.start.modelOfValue? (.object c.self) = some m := by
    obtain ⟨class_, one⟩ := h.class_
    obtain ⟨e, there, -⟩ := h.proper.objects c.self member
    obtain ⟨e', there', -⟩ := h.proper.objects id hid
    simpa [Env.modelOfValue?, there, there', Env.modelOf?, one _ member e there, one _ hid e' there']
      using model
  have tends {M : Manner τ} : M.Loads → M.Tends Loader.nested := Loader.tends_nested
  have fetches := undertaken.fetches tends ⟨name, own, fresh⟩ among
  exact ((same.agree member also_ model plain).meets_fetching _ fetches stage).imp fun _ _ _ => trivial

/-- A call on a copy of a row that returns leaves the relations loaded on its object: what the object
held to begin with, or else what was attached to the copy that the load was carried out for. If the two
copies agree in their columns, that is what a load of its own would have fetched. -/
theorem copies_hold_what_was_fetched (stands : g.Stands) (bond : g.bond = .copies row)
    (some_ : g.names ≠ []) (free : g.start.inFlight? g.registry g.key = some none)
    (answers : (g.sharing runner).Answers) :
    (∀ x, Joint.Reached (g.sharing runner) g.start x → ∀ call ∈ x.calls, ∀ v,
      x.schedule.Settled call.task (.ok v) → v = .object call.what.self ∧ ∃ first ∈ g.objects,
        x.schedule.Settled call.load (.ok (.list [.object first])) ∧ ∀ name ∈ g.names,
          x.schedule.state.isLoadedOn (.text name) (.object call.what.self) = true ∧
          held x.schedule.state call.what.self name =
            (held g.start call.what.self name).or (held x.schedule.state first name)) ∧
    ∀ c w r asked, c.self ∈ g.objects → Deed.registryId c.given = .ok g.registry →
      g.Asks c w r asked → ∀ other ∈ g.objects, g.SameColumns c.self other →
        g.FetchesAlike runner c r other := by
  refine ⟨fun x reached call hc v returns => ?_, fun c w r asked member given asks other also_ same =>
    stands.fetches_alike member given asks also_ same⟩
  obtain ⟨first, outcome, settled, past, served⟩ :=
    (reached.sound (stands.lawful some_ answers) (Scene.stage_start stands.proper) free).served hc returns
  cases outcome with
  | error e => cases served
  | ok loaded =>
    obtain ⟨same, member, all⟩ := served
    obtain ⟨done, ⟨rfl, -⟩, -⟩ := id past.done
    rw [Fellows.targets, bond] at settled
    exact ⟨Except.ok.inj same, first.self, past.member, settled, fun name hname =>
      ⟨all name hname, past.holds stands bond member hname (all name hname)⟩⟩

theorem agree_twoCopies : twoCopies.SameColumns 0 1 :=
  ⟨singlePost, singlePost, rfl, rfl, rfl, rfl, rfl⟩

/-- The second of two calls returns, and its post holds what was fetched for the other one. -/
theorem second_copy_holds : (∃ v, bothCopies.schedule.Settled 2 (.ok v) ∧ v = .object 1 ∧
    ∃ first ∈ twoCopies.objects, bothCopies.schedule.Settled 1 (.ok (.list [.object first])) ∧
      held bothCopies.schedule.state 1 "replies" = held bothCopies.schedule.state first "replies") ∧
    ∃ r, twoCopies.FetchesAlike Members.shelf (repliesOf 0) r 1 := by
  obtain ⟨holds, alike⟩ := copies_hold_what_was_fetched stands_twoCopies rfl (by decide) rfl
    answers_shelf
  obtain ⟨r, asked, asks⟩ := (fits_twoCopies (w := twoCopies.start) (.head _)).asks
  refine ⟨?_, r, alike _ _ r asked (.head _) rfl asks 1 (.tail _ (.head _)) agree_twoCopies⟩
  obtain ⟨v, returns⟩ : ∃ v, bothCopies.schedule.Settled 2 (.ok v) := by
    have ended : (bothCopies.schedule.outcomes[2]?).join.any (·.isOk) = true := by decide +kernel
    obtain ⟨outcome, there, ok⟩ := (Option.any_eq_true _ _).mp ended
    cases outcome with
    | error e => cases ok
    | ok v => exact ⟨v, Option.join_eq_some_iff.mp there⟩
  obtain ⟨call, there, task, load, what⟩ : ∃ call ∈ bothCopies.calls, call.task = 2 ∧ call.load = 1 ∧
      call.what = repliesOf 1 :=
    ⟨_, .tail _ (.head _), by decide +kernel, by decide +kernel, rfl⟩
  obtain ⟨same, first, member, settled, values⟩ := holds _ reached_bothCopies call there v
    (task ▸ returns)
  rw [load] at settled
  rw [what] at same values
  refine ⟨v, returns, same, first, member, settled, (values "replies" (.head _)).2.trans ?_⟩
  rw [repliesOf, lacks_iff.mp (bare_twoCopies 1 (.tail _ (.head _)) _ (.head _)),
    Option.none_or]

/-- Of two objects without an identifier either goes by the same key, but neither takes anything over
from the other one. -/
theorem nothing_taken_without_id {self first : ObjectId} {own other : Entity} (apart : first ≠ self)
    (there : w.object? self = some own) (there' : w.object? first = some other)
    (class_ : other.model = own.model) (null : own.id = .null) (null' : other.id = .null)
    (names : List String) :
    (∀ paths, Flights.rowKey ⟨.model other.model, other.id⟩ paths =
      Flights.rowKey ⟨.model own.model, own.id⟩ paths) ∧
    (Deed.copyFrom self [.object first] names).Glides runner w (.ok ()) w := by
  refine ⟨fun paths => by rw [class_, null, null'], ?_⟩
  have unequal : w.equalObjects first self = false := by
    simp [Env.equalObjects, there, there', null, apart, Value.isNull]
  refine Eq.subst (motive := fun w' => Act.Glides runner (Deed.copyFrom self [.object first] names) w
    (.ok ()) w') ?_ (Act.Glides.modify _)
  simp only [there, List.find?_cons, unequal, List.find?_nil]

end Fellows

end Relata
