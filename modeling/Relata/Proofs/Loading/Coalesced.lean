import Relata.Proofs.Loading.Batched
import Relata.Proofs.Loading.Fellows
import Relata.Proofs.Loading.Members

/-!
What comes of calls that share a load, in whatever order they arrive and take their turns. The first
of them starts the load, which fetches each relation once for all of its objects. All others wait for
it, and each goes on with its outcome: either every call returns and its object holds the relations,
or every call fails with the error of the load, and the next one starts anew.
-/

namespace Relata

open Act (Meets)
open Relation (ReflTransGen)

namespace Fellows

variable {τ : Type} (g : Fellows τ)

/-- A call that finds nothing in flight starts a load for what it asks, and waits for it. -/
def Starts (runner : Request → Deed τ (List Row)) (x : Joint τ ForAll) (c : ForAll) (r : LoadRequest)
    (asked : List String) : Prop :=
  g.Asks c x.schedule.state r asked ∧ ∃ key w', key.Twin g.key ∧
    Scene.Consulted g.registry x.schedule.state w' ∧
    (x.arrive (g.sharing runner) c).schedule = Schedule.launched g.registry key
      (Deed.carrying runner g.registry key
        (Deed.loadTargets r c.given g.registry ((g.targets c.self).map .object) asked))
      (fun outcome => (c.received asked outcome).answered runner) { x.schedule with state := w' }

/-- A load goes the same way as fetching each relation once for all of its objects. -/
def FetchesOnce (runner : Request → Deed τ (List Row)) (c : ForAll) (r : LoadRequest)
    (asked : List String) : Prop :=
  ∀ w, g.Stage [] [] w → Meets ((g.terms runner).pact c)
    (Deed.loadTargets r c.given g.registry ((g.targets c.self).map .object) asked)
    (g.fetching c.self asked (.ofRequest r c.given false)) w (g.Came c)

/-- Calls of which one has started a load, with a task of its own, for all. -/
structure Coalesced (runner : Request → Deed τ (List Row)) (t : TaskId) (x : Joint τ ForAll) :
    Prop where
  /-- The first call starts the load, in a world where nothing runs, -/
  first : ∃ w c r asked, g.Stage [] [] w ∧ g.Starts runner ⟨⟨w, [], #[], []⟩, []⟩ c r asked ∧
    g.FetchesOnce runner c r asked ∧ ReflTransGen (Joint.Step (g.sharing runner))
      (Joint.arrive (g.sharing runner) ⟨⟨w, [], #[], []⟩, []⟩ c) x
  /-- all calls wait for it, and no other task is started. -/
  loads : ∀ c ∈ x.calls, c.load = t
  once : (t :: x.calls.map Joint.Call.task).Nodup
  size : x.schedule.outcomes.size = x.calls.length + 1
  /-- Everything comes to rest, and then every call has ended. -/
  rests : ∃ n, (x.schedule.runFor n).queue = []
  ended : x.schedule.queue = [] → ∀ c ∈ x.calls, ∃ r, x.schedule.Settled c.task r
  /-- If the load succeeds every call returns with the relations on its own object, -/
  succeeds : ∀ loaded, x.schedule.Settled t (.ok loaded) → ∀ c ∈ x.calls, ∀ r,
    x.schedule.Settled c.task r → r = .ok (.object c.what.self) ∧
      ∀ name ∈ g.names, x.schedule.state.isLoadedOn (.text name) (.object c.what.self) = true
  /-- and copies of a row hold the same values. -/
  agree : ∀ row, g.bond = .copies row → ∀ loaded, x.schedule.Settled t (.ok loaded) →
    ∀ c ∈ x.calls, ∀ r, x.schedule.Settled c.task r →
      ∀ c' ∈ x.calls, ∀ r', x.schedule.Settled c'.task r' → ∀ name ∈ g.names,
        held x.schedule.state c.what.self name = held x.schedule.state c'.what.self name
  /-- If it fails every call fails with the same error, -/
  fails : ∀ e, x.schedule.Settled t (.error e) → ∀ c ∈ x.calls, ∀ r,
    x.schedule.Settled c.task r → r = .error e
  /-- the relations before the one that failed are loaded, on the objects of the load, and that one
  and those after it are loaded on none of the objects, -/
  lacking : ∀ e, x.schedule.Settled t (.error e) → ∃ self ∈ g.objects, ∃ before name after,
    (before ++ name :: after).Perm g.names ∧
      (∀ n ∈ before, ∀ id ∈ g.targets self,
        x.schedule.state.isLoadedOn (.text n) (.object id) = true) ∧
      ∀ n ∈ name :: after, ∀ id ∈ g.objects,
        x.schedule.state.isLoadedOn (.text n) (.object id) = false
  /-- nothing is in flight any more, and a later call starts anew. -/
  free : ∀ outcome, x.schedule.Settled t outcome →
    x.schedule.state.inFlight? g.registry g.key = some none
  again : ∀ e, x.schedule.Settled t (.error e) → ∀ c, g.Fits c x.schedule.state →
    ∃ r asked, g.Starts runner x c r asked

variable {g} {runner : Request → Deed τ (List Row)} {x : Joint τ ForAll} {w : World τ} {c : ForAll}
  {done : List String}

theorem Meanwhile.of_steps {w' : World τ} (h : ReflTransGen g.Meanwhile w w') :
    g.Meanwhile w w' := by
  induction h with
  | refl => exact .refl w
  | tail _ step ih => exact ih.trans step

/-- While a relation is lacking and nothing is in flight, a call starts a load. -/
theorem Open.starts (opened : g.Open done x.schedule.state) (stands : g.Stands)
    (runner : Request → Deed τ (List Row)) (entry : x.schedule.state.inFlight? g.registry g.key = some none)
    (fits : g.Fits c x.schedule.state) : ∃ r asked, g.Starts runner x c r asked := by
  obtain ⟨r, asked, asks, k, w', consulted, arrives⟩ :=
    opened.arrives stands runner fits.member fits
  have others : g.Meanwhile x.schedule.state w' := arrives.meanwhile
  exact ⟨r, asked, asks, k, w', arrives.key, consulted,
    Joint.starts arrives (Eq.trans others.2 entry)⟩

/-- What has settled with an error is open to be loaded again. -/
theorem Over.opened {first : ForAll} {e : Error} (past : g.Over first (.error e) w)
    (stands : g.Stands) (bare : g.Bare) : ∃ before name after, (before ++ name :: after).Perm g.names ∧
      g.Open before w ∧
      (∀ n ∈ before, ∀ id ∈ g.targets first.self, w.isLoadedOn (.text n) (.object id) = true) ∧
      ∀ n ∈ name :: after, ∀ id ∈ g.objects, w.isLoadedOn (.text n) (.object id) = false := by
  obtain ⟨before, ⟨name, after, whole⟩, kin⟩ := past.done
  have once := whole.nodup_iff.mpr stands.named.once
  have fresh : ∀ n ∈ name :: after, n ∉ before := fun n there old =>
    (List.nodup_append.mp once).2.2 n old n there rfl
  have among : ∀ n ∈ name :: after, n ∈ g.names := fun n there =>
    whole.mem_iff.mp (List.mem_append_right _ there)
  refine ⟨before, name, after, whole, ⟨?_, name, among name (.head _), fresh name (.head _)⟩,
    fun n there id target => ?_, fun n there id own => ?_⟩
  · exact kin.weaken (fun _ name own => own.2.2 (bare _ past.member name own.1))
      (fun _ _ absurd => absurd.elim) fun _ own => own
  · exact kin.isLoadedOn stands.proper (mem_of_mem_targets past.member target) ⟨target, there⟩
  · exact (kin.isLoadedOn_eq stands.proper own fun may =>
      fresh n there (may.2.2 (bare _ past.member n may.1))).trans (bare id own n (among n there))

/-- Calls for the same names, on objects that belong together and lack the relations, share one load:
in any order of arrivals and turns, and whatever others do that leaves the objects alone. -/
theorem load_coalesces (stands : g.Stands) (bare : g.Bare) (some_ : g.names ≠ [])
    (free : g.start.inFlight? g.registry g.key = some none) (answers : (g.sharing runner).Answers)
    (reached : Joint.Reached (g.sharing runner) g.start x) (called : x.calls ≠ []) :
    ∃ t, g.Coalesced runner t x := by
  have laws := stands.lawful some_ answers
  have begins : g.Stage [] [] g.start := Scene.stage_start stands.proper
  have sound := reached.sound laws begins free
  obtain ⟨t, company⟩ := sound.company called
  have past {outcome : Except Error Value} (settled : x.schedule.Settled t outcome) :=
    sound.settled_past company settled
  have served {outcome : Except Error Value} (settled : x.schedule.Settled t outcome)
      {call : Joint.Call ForAll} (hc : call ∈ x.calls) {r : Except Error Value}
      (ended : x.schedule.Settled call.task r) :
      g.Served call.what r x.schedule.state outcome := by
    obtain ⟨_, outcome', settled', _, served⟩ := sound.served hc ended
    rw [company.loads call hc] at settled'
    exact settled.unique settled' ▸ served
  refine ⟨t, ?_, company.loads, company.once, company.size, reached.comes_to_rest laws begins free,
    fun rests _ hc => sound.at_rest rests hc, fun loaded settled call hc r ended => ?_,
    fun row bond loaded settled call hc r ended call' hc' r' ended' name hname => ?_,
    fun e settled call hc r ended => served settled hc ended, fun e settled => ?_,
    fun outcome settled => ?_, fun e settled c fits => ?_⟩
  · obtain ⟨w, -, rfl⟩ | ⟨w, c, others, fits, leads⟩ := reached.opening
    · exact absurd rfl called
    · have still : g.Meanwhile g.start w := .of_steps others
      have begins : g.Stage [] [] w := Scene.Kin.apart begins still.1
      have opened : g.Open [] w := by
        obtain ⟨name, hname⟩ := List.exists_mem_of_ne_nil _ some_
        exact ⟨begins.weaken (fun _ _ own => own.2.1) (fun _ _ absurd => absurd.elim) fun _ own => own,
          name, hname, List.not_mem_nil⟩
      let x : Joint τ ForAll := ⟨⟨w, [], #[], []⟩, []⟩
      have opened : g.Open [] x.schedule.state := opened
      obtain ⟨r, asked, starts⟩ := opened.starts stands runner (Eq.trans still.2 free) fits
      exact ⟨w, c, r, asked, begins, starts,
        fun w' begins => stands.meets_loadTargets bare fits.member fits.registry starts.1 begins, leads⟩
  · obtain ⟨same, -, all⟩ := served settled hc ended
    exact ⟨same, all⟩
  · obtain ⟨first, past⟩ := past settled
    have same {call : Joint.Call ForAll} (hc : call ∈ x.calls) {r : Except Error Value}
        (ended : x.schedule.Settled call.task r) :
        held x.schedule.state call.what.self name = held x.schedule.state first.self name := by
      obtain ⟨-, member, all⟩ := served settled hc ended
      rw [past.past.holds stands bond member hname (all name hname),
        lacks_iff.mp (bare _ member name hname), Option.none_or]
    exact (same hc ended).trans (same hc' ended').symm
  · obtain ⟨first, past⟩ := past settled
    obtain ⟨before, name, after, whole, -, loaded, lacking⟩ := past.past.opened stands bare
    exact ⟨first.self, past.past.member, before, name, after, whole, loaded, lacking⟩
  · obtain ⟨first, past⟩ := past settled
    exact past.past.free
  · obtain ⟨first, past⟩ := past settled
    obtain ⟨before, name, after, -, opened, -⟩ := past.past.opened stands bare
    exact opened.starts stands runner past.past.free fits

/-- A post that belongs to no collection. -/
def singlePost : Entity := ⟨0, [("id", .int 1)], [], [], none⟩

/-- Two copies of a post, of which neither carries its replies. -/
def twoCopies : Fellows Unit where
  registry := 0
  objects := [0, 1]
  start :=
    { Members.twoPosts with
      objects := #[singlePost, singlePost]
      collections := #[] }
  sole := True
  names := ["replies"]
  bond := .copies ⟨.model 0, .int 1⟩

def repliesOf (self : ObjectId) : ForAll := ⟨self, .text "replies", .null⟩

/-- A call on each of the copies, and what comes of them. -/
def bothCopies : Joint Unit ForAll :=
  let S := twoCopies.sharing Members.shelf
  let first := Joint.arrive S ⟨⟨twoCopies.start, [], #[], []⟩, []⟩ (repliesOf 0)
  let second := Joint.arrive S first (repliesOf 1)
  { second with schedule := second.schedule.runFor 20 }

theorem own_twoCopies {id : ObjectId} (member : id ∈ twoCopies.objects) :
    twoCopies.start.object? id = some singlePost := by
  rcases List.mem_cons.mp member with rfl | member
  · rfl
  · obtain rfl := List.mem_singleton.mp member
    rfl

theorem stands_twoCopies : twoCopies.Stands := by
  have same {id : ObjectId} (member : id ∈ twoCopies.objects) {e : Entity}
      (there : twoCopies.start.object? id = some e) : e = singlePost :=
    Option.some.inj (there.symm.trans (own_twoCopies member))
  refine ⟨⟨fun id member => ⟨_, own_twoCopies member, .int 1, rfl, fun _ => rfl⟩, by decide, rfl⟩,
    ⟨by decide, by decide, by decide⟩, ⟨0, fun id member e there => same member there ▸ rfl⟩,
    fun id member e there => same member there ▸ rfl, ⟨rfl, rfl⟩, ?_, ?_⟩
  · rintro _ ⟨id, member, e, there, rfl⟩
    obtain rfl := same member there
    exact ⟨⟨rfl, rfl⟩, rfl⟩
  · rintro _ ⟨id, member, e, there, rfl⟩
    obtain rfl := same member there
    refine ⟨rfl, fun _ name _ marked => ?_⟩
    obtain ⟨own, absurd, _⟩ := marked
    cases absurd

theorem bare_twoCopies : twoCopies.Bare := fun id member name _ => by
  simp [Scene.Lacks, Env.isLoadedOn, own_twoCopies member, singlePost, Entity.isLoaded,
    Entity.value?, Entity.slot?, Value.lookup?]

/-- The replies of posts ask for nothing in turn. -/
theorem flat_replies {S : Scene Unit} (same : S.start.toLookup = Members.twoPosts.toLookup)
    (posts : ∀ id ∈ S.objects, ∀ e, S.start.object? id = some e → e.model = 0) :
    S.Flat (.ofRequest ⟨[.text "replies"], [], []⟩ .null false) ["replies"] := by
  refine Scene.flat_of_unrefined fun m name d ⟨hname, ⟨id, own, model⟩, required⟩ => ?_
  obtain rfl := List.mem_singleton.mp hname
  obtain ⟨e, there, found⟩ := Option.bind_eq_some_iff.mp model
  have known : S.start.modelOf? e = some Members.subjectPost := by
    rw [Env.modelOf?, posts id own e there, same]
    rfl
  obtain rfl := Option.some.inj (known.symm.trans found)
  have replies : S.start.require Members.subjectPost (.text "replies") =
      .ok Loader.replyRelation := by
    rw [same]
    rfl
  obtain rfl := Except.ok.inj (replies.symm.trans required)
  refine ⟨by decide, rfl, rfl, fun related found => ?_⟩
  have leads : S.start.relatedModel Loader.replyRelation = .ok Members.subjectPost := by
    rw [same]
    rfl
  obtain rfl := Except.ok.inj (leads.symm.trans found)
  rfl

theorem fits_twoCopies {w : World Unit} {self : ObjectId} (member : self ∈ twoCopies.objects) :
    twoCopies.Fits (repliesOf self) w := by
  refine ⟨member, .inl trivial, rfl, ⟨[.text "replies"], [], []⟩, ["replies"], rfl, rfl, .refl _,
    fun _ => flat_replies rfl fun id own e there => ?_⟩
  obtain rfl := Option.some.inj (there.symm.trans (own_twoCopies own))
  rfl

theorem answers_shelf {g : Fellows Unit} : (g.sharing Members.shelf).Answers := fun _ _ =>
  .pause fun signal => by cases signal <;> exact .ends _

theorem reached_bothCopies :
    Joint.Reached (twoCopies.sharing Members.shelf) twoCopies.start bothCopies := by
  let S := twoCopies.sharing Members.shelf
  let first := Joint.arrive S ⟨⟨twoCopies.start, [], #[], []⟩, []⟩ (repliesOf 0)
  have one : Joint.Reached S twoCopies.start first :=
    .step .start (.arrive (by rintro ⟨_, absurd, _⟩; cases absurd) (fits_twoCopies (.head _)))
  have unsettled : ¬ first.Settled := by
    rintro ⟨c, hc, outcome, settled⟩
    obtain rfl := List.mem_singleton.mp (show c ∈ [⟨0, repliesOf 0, 1⟩] from hc)
    cases settled
  exact .runFor (.step one (.arrive unsettled (fits_twoCopies (.tail _ (.head _))))) 20

/-- Both calls return, and one load is carried out for them. -/
theorem copies_coalesce : (∃ t, twoCopies.Coalesced Members.shelf t bothCopies) ∧
    bothCopies.schedule.queue.isEmpty = true ∧
    (bothCopies.schedule.outcomes.toList.all fun r => r.any (·.isOk)) = true := by
  refine ⟨load_coalesces stands_twoCopies bare_twoCopies (by decide) rfl answers_shelf
    reached_bothCopies ?_, ?_⟩
  · simp [bothCopies, Joint.arrive]
  · decide +kernel

/-- A program in a world where every statement is answered with these rows, after a turn. -/
def outcome (start : World Unit) (rows : List Row) (main : Deed Unit Value) :
    Except Error Value × World Unit :=
  let runner : Request → Deed Unit (List Row) := fun _ => do
    Act.pause
    return rows
  Schedule.finish ((main .done).answered runner) start

/-- Calls on two objects for the same names, the second after some turns. With the result of the
second call comes whether the first object carries the last of the names by then. -/
def twoCalls (names : List String) (turns : Nat) : Deed Unit Value := do
  let call (self : ObjectId) : Deed Unit Value :=
    ForAll.deed ⟨self, .list (names.map .text), .null⟩
  let first ← Act.spawn fun _ => call 0
  let second ← Act.spawn fun _ => do
    (List.range turns).forM fun _ => Act.pause
    discard (call 1)
    let loaded ← Act.gets fun w => w.isLoadedOn (.text (names.getLastD "")) (.object 0)
    return .bool loaded
  discard (Act.join first).attempt
  Act.join second

/-- A post whose replies may be fetched with replies of their own. -/
def deepPost : Model :=
  { threadedPost with
    fields := [⟨"id", ⟨.any, true⟩, some .null⟩]
    declared := threadedPost.declared ++ [("deep", 0, ⟨.direct [("kind", .text "has_many"),
      ("model", .model 0), ("foreign_key", .text "parent"), ("local_key", .text "id")],
      [], none, [.mk "with_" [.list [.text "replies"]] []]⟩)] }

/-- Two posts of a collection, on a label each, with an identifier and a limit of what is marked. -/
def twoLabelled (id limit : Value) : World Unit :=
  let post : Entity :=
    ⟨0, [("id", id)], [("subject_type", .text "labels"), ("subject_id", .int 9)], [], some 0⟩
  { Members.twoPosts with
    objects := #[post, post]
    registries := #[.empty limit] }

/-- A copy that carries the relation already keeps what it holds; where the rows that are fetched ask
for relations in turn, and are further copies, a call made meanwhile finds the row marked and returns
at once without any; objects that cannot be marked, for their identifier or the limit, carry a
relation although the load fails; and for no names members of a collection start no load. -/
theorem copies_left_apart :
    (let carried := outcome { twoCopies.start with objects := #[singlePost,
        singlePost.setRelation (.text "replies") (.list [])] }
      [[("id", .int 10), ("parent", .int 1)]] (twoCalls ["replies"] 0)
    carried.1.isOk = true ∧ (held carried.2 0 "replies").any (·.same (.list [])) = false ∧
      (held carried.2 1 "replies").any (·.same (.list [])) = true) ∧
    (let deep := outcome { twoCopies.start with catalog := ⟨#[deepPost]⟩ }
      [[("id", .int 1), ("parent", .int 1)]] (twoCalls ["deep", "replies"] 3)
    deep.1.toOption.any (·.same (.bool false)) = true ∧
      deep.2.isLoadedOn (.text "replies") (.object 0) = true ∧
      deep.2.isLoadedOn (.text "deep") (.object 1) = false) ∧
    (∀ id limit, (id, limit) ∈ [(Value.list [], Registry.defaultLimit), (.int 1, .int (-1))] →
      let failed := outcome (twoLabelled id limit) [[("id", .int 9)]] (twoCalls ["subject"] 0)
      failed.1.isOk = false ∧ failed.2.isLoadedOn (.text "subject") (.object 0) = true) ∧
    (Joint.arrive (Members.twoPaths.sharing Members.shelf) ⟨⟨Members.twoPosts, [], #[], []⟩, []⟩
      ⟨0, .list [], .null⟩).schedule.outcomes.size = 1 := by
  refine ⟨by decide +kernel, by decide +kernel, ?_, by decide +kernel⟩
  simp only [List.mem_cons, List.not_mem_nil, or_false, Prod.mk.injEq]
  rintro _ _ (⟨rfl, rfl⟩ | ⟨rfl, rfl⟩)
  · decide +kernel
  · decide +kernel

end Fellows

end Relata
