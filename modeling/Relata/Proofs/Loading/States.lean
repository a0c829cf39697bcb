import Relata.Proofs.Loading.Members
import Relata.Proofs.Loading.Waiting

/-!
The states of relations. Programs load relations in every way there is, set them and forget them; any
number of them run beside each other, in any order of turns, and each may be cancelled at any time. Main
statement: at every moment a relation counts as loaded exactly if a value is stored for it, it is marked
as being loaded only while some task is on its way to concluding a fetch for that object, and once all
tasks have settled nothing is marked so any more.
-/

namespace Relata

open Relation (ReflTransGen)
open Process (byLaw Answers)

namespace Deed

variable {τ α β : Type}

/-- Programs that leave relations of objects to the ways there are of loading, setting and forgetting
them. -/
inductive Relates {τ : Type} : {α : Type} → Deed τ α → Prop
  | result {α : Type} (r : Except Error α) : Relates (Act.ofExcept r)
  | bind {α β : Type} {x : Deed τ α} {f : α → Deed τ β} : Relates x → (∀ a, Relates (f a)) →
    Relates (x >>= f)
  | attempt {α : Type} {x : Deed τ α} : Relates x → Relates x.attempt
  | read {α : Type} (f : World τ → Except Error α) : Relates (Act.getsExcept f)
  | aside {α : Type} {f : World τ → α × World τ} : (∀ w, World.Untouched w (f w).2) →
    Relates (Act.modifyGet f)
  | ask (r : Request) : Relates (Act.ask r)
  | pause : Relates Act.pause
  | spawn {body : TaskId → Deed τ Value} : (∀ u, Relates (body u)) → Relates (Act.spawn body)
  | join (u : TaskId) : Relates (Act.join u)
  | cancel (u : TaskId) : Relates (Act.cancel u)
  /-- A value that may depend on what the objects hold is set. -/
  | set {o : Value} {name : String} {f : World τ → Except Error Value} :
    (∀ w, w.Plain → ∀ v, f w = .ok v → ∀ x ∈ v.held, x.Plain) →
      Relates (Act.getsExcept f >>= fun v => modifyEntity o (·.setRelation (.text name) v))
  | forget (o : Value) (name : String) : Relates (modifyEntity o (·.forgetRelation (.text name)))
  | load {loader : Loader} {objects paths : List Value} : (∀ v ∈ objects, v.Plain) →
    Relates (Loader.load loader objects paths)
  | get (q : Query) (registry : Value) : Relates (q.get registry)
  | loadForAll (self : ObjectId) (relations given : Value) : Relates (loadForAll self relations given)

/-! Loading for all that were fetched together minds the mark of every relation of every object. -/

section LoadForAll

variable {id : ObjectId} {name : String} {n : Nat}

/-- Changes that leave relations alone. -/
theorem heeds_aside {f : World τ → α × World τ} (h : ∀ w, World.Untouched w (f w).2) :
    (Manner.heeding τ id name).Keeps n (Act.modifyGet f) fun _ _ => True := by
  refine Manner.heeds_of_leaving fun w kept le => .modifyGet ?_ ?_
  · exact (Manner.slack_quiet id name).untouched (h w)
  · exact .of (kept.untouched (h w)) (le.trans (h w).grown) fun _ _ => trivial

/-- A change to the relations of one object. -/
theorem heeds_modify {f : World τ → World τ}
    (h : ∀ w, w.Plain → w.Touched (f w) ∧ ((f w).Marked id name → w.Marked id name)) :
    (Manner.heeding τ id name).Keeps n (Act.modify f) fun _ _ => True := by
  refine Manner.heeds_of_leaving fun w kept le => ?_
  obtain ⟨touched, quiet⟩ := h w kept
  exact .modify ⟨touched, quiet⟩
    (.of (kept.touched touched) (le.trans touched.size_le) fun _ _ => trivial)

theorem heeds_modifyRegistry (registry : RegistryId) (f : Registry → Registry) :
    (Manner.heeding τ id name).Keeps n (modifyRegistry registry f) fun _ _ => True :=
  heeds_aside (f := fun w => ((), { w with registries := w.registries.modify registry f }))
    fun _ => .of_objects rfl

theorem heeds_knownOn (own : Entity) (targets : List Value) (names : List String) (given : Value) :
    (Manner.heeding τ id name).Keeps n (knownOn own targets names given) fun _ _ => True := by
  let M := Manner.heeding τ id name
  unfold knownOn
  dsimp only
  split
  · refine M.gets_bind fun w _ => ?_
    split
    · refine M.ofExcept_bind fun registry _ => ?_
      exact M.bind (Manner.heeds_markObjects registry _ _) fun _ _ _ _ => M.pure trivial
    · exact M.pure trivial
  · refine M.ofExcept_bind fun registry _ => M.getsExcept_bind fun _ _ key _ => ?_
    exact M.bind (heeds_aside fun _ => .of_objects rfl) fun _ _ _ _ =>
      M.ofExcept fun _ _ => trivial

theorem heeds_flightKey (own : Entity) (members paths : List Value) :
    (Manner.heeding τ id name).Keeps n (flightKey own members paths) fun _ _ => True := by
  let M := Manner.heeding τ id name
  unfold flightKey
  dsimp only
  split
  · exact M.pure trivial
  · exact M.getsExcept_bind fun _ _ _ _ => M.pure trivial

theorem heeds_loadTargets (r : LoadRequest) (given : Value) (registry : RegistryId)
    {targets : List Value} (plain : ∀ v ∈ targets, v.Plain) (names : List String) :
    (Manner.heeding τ id name).Keeps n (loadTargets r given registry targets names)
      fun _ _ => True := by
  let M := Manner.heeding τ id name
  refine M.bind ((Manner.pends_heeding id name).load n _ targets _ plain) fun _ _ _ _ => ?_
  exact M.bind (Manner.heeds_markObjects registry _ _) fun _ _ _ _ => M.pure trivial

/-- Whoever waits for a load that another task carries out finds what others have changed meanwhile. -/
theorem heeds_join (u : TaskId) :
    (Manner.heeding τ id name).Keeps n (Act.join u) fun _ _ => True := fun _ kept le =>
  .join fun _ _ later =>
    have upheld := Manner.plain_later kept later
    .of upheld.1 (le.trans upheld.2) fun _ _ => trivial

theorem heeds_coordinate {registry : RegistryId} {key : Value} {load : Deed τ Value}
    (heeds : (Manner.heeding τ id name).Keeps 0 load fun _ _ => True) :
    (Manner.heeding τ id name).Keeps n (coordinate registry key load) fun _ _ => True := by
  let M := Manner.heeding τ id name
  refine M.gets_bind fun _ _ => ?_
  split
  · exact heeds_join _
  · refine M.bind (P := fun _ _ => True) (fun _ kept le => ?_) fun _ _ task _ => ?_
    · refine .spawn (fun u t later => ?_) fun _ => .of kept le fun _ _ => trivial
      have released : M.Keeps 0 (load.always (modifyRegistry registry fun r =>
          { r with flights := r.flights.release key u })) fun _ _ => True :=
        M.bind (M.attempt heeds) fun _ _ _ _ => M.bind (heeds_modifyRegistry _ _)
          fun _ _ _ _ => M.ofExcept fun _ _ => trivial
      exact (released t (Manner.plain_later kept later).1 (Nat.zero_le _)).imp fun _ _ _ => trivial
    · exact M.bind (heeds_modifyRegistry _ _) fun _ _ _ _ => heeds_join _

/-- What an object lacks is set on it, to values that another one holds. -/
theorem taken_over {other : Option Entity} (plain : ∀ e, other = some e → e.Plain)
    (names : List String) (own : Entity) : ∃ changes : List SlotChange,
      (∀ c ∈ changes, c.Plain ∧ ∀ name, c ≠ .begin_ name) ∧
      names.foldl (fun (e : Entity) name => match other.bind (·.value? (.text name)) with
        | some v => if e.isLoaded (.text name) then e else e.setRelation (.text name) v
        | none => e) own = SlotChange.all changes own := by
  induction names generalizing own with
  | nil => exact ⟨[], List.forall_mem_nil _, rfl⟩
  | cons first rest ih =>
    rw [List.foldl_cons]
    split
    · next v held =>
      obtain ⟨e, rfl, value⟩ := Option.bind_eq_some_iff.mp held
      split
      · exact ih own
      · obtain ⟨changes, sets, eq⟩ := ih (own.setRelation (.text first) v)
        refine ⟨.set first v :: changes, List.forall_mem_cons.mpr ⟨⟨?_, by simp⟩, sets⟩, eq⟩
        exact plain e rfl first v value
    · exact ih own

theorem heeds_copyFrom (self : ObjectId) (others : List Value) (names : List String) :
    (Manner.heeding τ id name).Keeps n (copyFrom self others names) fun _ _ => True := by
  refine heeds_modify fun w kept => ?_
  have same : w.Touched w ∧ (w.Marked id name → w.Marked id name) :=
    ⟨.none (.of_objects rfl), fun h => h⟩
  split
  · exact same
  · next own there =>
    dsimp only
    split
    · next other _ =>
      split
      · exact same
      · obtain ⟨changes, sets, eq⟩ := taken_over (fun e found => kept other e found) names own
        have made := World.modified_of_object? there (SlotChange.all changes)
        rw [← eq] at made
        refine Eq.subst (motive := fun w' => w.Touched w' ∧ (w'.Marked id name → w.Marked id name)) made
          ⟨.one changes fun c hc => (sets c hc).1, World.marked_of_modified fun _ _ => ?_⟩
        exact Entity.state_of_all fun c hc => (sets c hc).2 name
    · exact same

theorem heeds_loadForAll (self : ObjectId) (relations given : Value) :
    (Manner.heeding τ id name).Keeps n (loadForAll self relations given) fun _ _ => True := by
  let M := Manner.heeding τ id name
  refine M.getsExcept_bind fun _ _ r _ => M.ofExcept_bind fun names _ => ?_
  refine M.getsExcept_bind fun _ _ own _ => M.gets_bind fun w _ => ?_
  generalize same : (own.collection.map w.collectionOf).getD [] = members
  have plain : ∀ v ∈ if members.isEmpty then [Value.object self] else members, v.Plain := by
    intro v there
    split at there
    · rw [List.mem_singleton.mp there]
      trivial
    · rw [← same] at there
      cases of : own.collection with
      | none =>
        rw [of] at there
        cases there
      | some c =>
        rw [of] at there
        obtain ⟨o, -, rfl⟩ := List.mem_map.mp there
        trivial
  revert plain
  dsimp only
  generalize (if members.isEmpty then [Value.object self] else members) = targets
  intro plain
  refine M.bind (heeds_knownOn own targets names given) fun _ _ known _ => ?_
  split
  · exact M.pure trivial
  · refine M.ofExcept_bind fun registry _ => ?_
    refine M.bind (heeds_flightKey own members r.paths) fun _ _ key _ => ?_
    refine M.bind (heeds_coordinate (heeds_loadTargets r given registry plain names))
      fun _ _ loaded _ => ?_
    refine M.gets_bind fun _ _ => ?_
    split
    · split
      · exact heeds_copyFrom self _ names
      · exact M.pure trivial
    · exact M.pure trivial

end LoadForAll

/-- Programs that relate objects mind the mark of every relation: one case for each way there is. -/
theorem Relates.minds {x : Deed τ α} (h : Relates x) (id : ObjectId) (name : String) {w : World τ}
    (plain : w.Plain) : x.Minds (Loader.mark id name) w fun _ t => t.Plain := by
  let M := Manner.heeding τ id name
  have heeds {α : Type} {x : Deed τ α} {P : Nat → α → Prop} {w : World τ} (plain : w.Plain)
      (h : M.Keeps 0 x P) : x.Minds (Loader.mark id name) w fun _ t => t.Plain :=
    (h w plain (Nat.zero_le _)).imp fun _ _ there => there.1
  induction h generalizing w with
  | result r => exact .of_ends (.ofExcept plain)
  | bind _ _ ihx ihf => exact (ihx plain).bind (fun a _ kept => ihf a kept) fun _ _ kept => kept
  | attempt _ ih => exact .attempt (ih plain)
  | read f => exact .of_ends (.getsExcept plain)
  | aside leaves => exact heeds plain (heeds_aside leaves)
  | ask r =>
    exact fun last next => .ask fun rows t later => next rows t (Manner.plain_later plain later).1
  | pause => exact .pause fun _ _ later => (Manner.plain_later plain later).1
  | spawn _ ih =>
    refine .spawn (fun u t later => ?_) fun _ => plain
    exact (ih u (Manner.plain_later plain later).1).imp fun _ _ _ => trivial
  | join u => exact .join fun _ _ later => (Manner.plain_later plain later).1
  | cancel u => exact fun last next => .cancel (next (.ok ()) w plain)
  | @set o other f holds =>
    refine .getsExcept_bind (fun v found => ?_) fun _ _ => plain
    exact heeds plain (Manner.heeds_change (c := .set other v) (holds w plain v found) (.inr (by simp)))
  | forget o other =>
    exact heeds plain (Manner.heeds_change (c := .forget other) trivial (.inr (by simp)))
  | load own => exact heeds plain ((Manner.pends_heeding id name).load 0 _ _ _ own)
  | get q registry =>
    exact heeds plain (M.fetch (fun _ n objects own => (Manner.pends_heeding id name).load n _ _ _ own) _)
  | loadForAll self relations given => exact heeds plain (heeds_loadForAll self relations given)

end Deed

namespace Loader

variable {τ : Type}

/-- A task is in the midst of loading the relation for objects of which this is one: however it is
told to go on, it comes to concluding the fetch for them. -/
def AwaitedBy (runner : Request → Deed τ (List Row)) (id : ObjectId) (name : String)
    (s : Schedule (World τ)) (t : TaskId) : Prop :=
  ∃ (self : Loader) (pending : List Value), .object id ∈ pending ∧
    ∃ signal next, .run t signal next ∈ s.queue ∧ ∀ told w, ReflTransGen World.Touched s.state w →
      (next told).Towards World.Touched (fun p _ => ∃ outcome last,
        p = (self.conclude (.text name) pending outcome last).answered runner) w

/-- What may be launched. -/
def Launched (runner : Request → Deed τ (List Row)) (p : Process (World τ)) : Prop :=
  ∃ x : Deed τ Value, x.Relates ∧ p = (x .done).answered runner

/-- Whatever answers statements leaves relations alone. -/
abbrev Leaves (runner : Request → Deed τ (List Row)) : Prop :=
  Answers (byLaw World.Untouched) runner

theorem plain_of_bare {w : World τ} (bare : ∀ id, w.slotsOf id = []) : w.Plain := by
  intro id e there name v held
  have none := bare id
  rw [World.slots_of_object? there] at none
  simp [Entity.value?, Entity.slot?, none, Value.lookup?] at held

theorem Launched.minds {runner : Request → Deed τ (List Row)} {p : Process (World τ)}
    (h : Launched runner p) (leaves : Leaves runner) (id : ObjectId) (name : String) {w : World τ}
    (plain : w.Plain) : p.Minds ((mark id name).answered runner) false w := by
  obtain ⟨x, relates, rfl⟩ := h
  have answers : Answers (mark id name).quiet runner := fun r last =>
    (leaves r last).mono (ReflTransGen.mono (fun _ _ => World.Touched.none) _ _) fun same =>
      ⟨.none same, World.marked_of_untouched same⟩
  exact (relates.minds id name plain .done fun r t _ => .done r t).answered answers

/-- A relation of an object counts as loaded exactly if a value is stored for it, at every moment of
every run: shown by tables of values and of states that go through the same changes. It is marked as
being loaded only while some task that has not settled is in the midst of loading it for objects of which
this is one; and once all tasks have settled, no relation is. -/
theorem states_tell {runner : Request → Deed τ (List Row)} (leaves : Leaves runner) {start : World τ}
    (bare : ∀ id, start.slotsOf id = []) {past : List (World τ)} {s : Schedule (World τ)}
    (run : Schedule.Arises (Launched runner) start past s) :
    (∀ w earlier, w :: earlier <:+ past →
      (∃ tables, World.Traced (w :: earlier) tables) ∧
      ∀ tables, World.Traced (w :: earlier) tables → ∀ id e, w.object? id = some e →
        ∀ name : String, (tables id).value? (.text name) = e.value? (.text name) ∧
          (tables id).state (.text name) = e.state (.text name) ∧
          ((tables id).state (.text name) = .loaded ↔ ((tables id).value? (.text name)).isSome)) ∧
    (∀ id e (name : String), s.state.object? id = some e → e.state (.text name) = .loading →
      ∃ t, s.Open t ∧ AwaitedBy runner id name s t) ∧
    ((∀ t, ¬ s.Open t) → ∀ id e (name : String), s.state.object? id = some e →
      e.state (.text name) ≠ .loading) := by
  have plain := plain_of_bare bare
  have placed := run.placed
  have minds (id : ObjectId) (name : String) := @Schedule.Arises.owed _ ((mark id name).answered runner) _ _ _ _ run
    (fun ⟨e, there, marked⟩ => by
      have none := bare id
      rw [World.slots_of_object? there] at none
      simp [Entity.state, Entity.slot?, none, Value.lookup?] at marked)
    fun p launched t later => launched.minds leaves id name (Manner.plain_later plain later).1
  have awaited : ∀ id e (name : String), s.state.object? id = some e →
      e.state (.text name) = .loading → ∃ t, s.Open t ∧ AwaitedBy runner id name s t := by
    intro id e name there marked
    obtain ⟨turn, queued, owes⟩ := (minds id name).2 ⟨e, there, marked⟩
    refine ⟨turn.task, (placed.mem_iff _).mp (Schedule.mem_standing_of_queue queued), ?_⟩
    cases turn with
    | relay w outcome => exact owes.elim
    | run t signal next =>
      obtain ⟨_, ⟨C, ⟨self, pending, waits, concludes⟩, rfl⟩, -, towards⟩ := owes
      refine ⟨self, pending, waits, signal, next, queued, fun told w later => ?_⟩
      refine (towards told w later).trans ?_
      rintro _ t - ⟨p, here, rfl⟩
      obtain ⟨outcome, last, rfl⟩ := concludes p t here
      exact .there ⟨outcome, last, rfl⟩
  refine ⟨fun w earlier part => ?_, awaited, fun settled id e name there marked => ?_⟩
  · have course := (run.by_law fun p launched t later =>
      (launched.minds leaves 0 "" (Manner.plain_later plain later).1).abides).2.earlier part
    obtain ⟨before, tables, same, traced⟩ := World.traced_of_course course bare
    refine ⟨⟨tables, traced⟩, fun tables traced id e there name => ?_⟩
    have shows := traced.shows id e (World.slots_of_object? there).symm
    refine ⟨shows.value name, shows.state name, ?_⟩
    rw [shows.value, shows.state, Entity.state_eq_loaded_iff]
  · obtain ⟨t, isOpen, -⟩ := awaited id e name there marked
    exact settled t isOpen

/-- The replies to one post are loaded, answered by someone who takes a turn to do so. -/
def repliesOfPost : Deed Unit Value := do
  Loader.load ⟨[], [], .null, false, .int 1000⟩ [.object 0] [.text "replies"]
  return .null

/-- The task that loads them has been launched. -/
def repliesAsked : Schedule (World Unit) :=
  let idle : Schedule (World Unit) := ⟨Members.twoPosts, [], #[], []⟩
  .drive idle.outcomes.size ((repliesOfPost .done).answered Members.shelf)
    { idle with outcomes := idle.outcomes.push none }

theorem slotsOf_twoPosts (id : ObjectId) : Members.twoPosts.slotsOf id = [] := by
  unfold World.slotsOf
  cases there : Members.twoPosts.object? id with
  | none => rfl
  | some e => exact Members.bare_twoPosts there

theorem leaves_shelf : Leaves Members.shelf := fun _ _ =>
  .pause fun signal => by cases signal <;> exact .ends _

/-- The relation is marked then, and the task is in the midst of loading it. -/
theorem replies_awaited :
    (∃ past, Schedule.Arises (Launched Members.shelf) Members.twoPosts past repliesAsked) ∧
    ∃ e, repliesAsked.state.object? 0 = some e ∧ e.state (.text "replies") = .loading ∧
      ∃ t, repliesAsked.Open t ∧ AwaitedBy Members.shelf 0 "replies" repliesAsked t := by
  have relates : repliesOfPost.Relates :=
    .bind (.load (by simp [Value.Plain])) fun _ => .result (.ok Value.null)
  have launched : Launched Members.shelf ((repliesOfPost .done).answered Members.shelf) :=
    ⟨_, relates, rfl⟩
  obtain ⟨past, run⟩ : ∃ past, Schedule.Arises (Launched Members.shelf) Members.twoPosts past
      repliesAsked := ⟨_, .launch .idle launched⟩
  have marked : (repliesAsked.state.object? 0).any (·.state (.text "replies") == .loading) = true := by
    decide +kernel
  obtain ⟨e, there, own⟩ := (Option.any_eq_true _ _).mp marked
  have loading : e.state (.text "replies") = .loading := by simpa using own
  exact ⟨⟨past, run⟩, e, there, loading,
    (states_tell leaves_shelf slotsOf_twoPosts run).2.1 0 e "replies" there loading⟩

end Loader

end Relata
