import Relata.Proofs.Loading.Made
import Relata.Proofs.Loading.Members
import Relata.Proofs.Loading.Once
import Relata.Proofs.Loading.Waiting
import Relata.Proofs.Process.Comes
import Relata.Proofs.Process.Goes

/-!
Fetches that fail. However far a fetch for a relation has come, if it fails then the load fails with the
same error, and every relation of every object and all registries are as they were when it began: what
has been made of earlier rows is in no relation, and no mark tells of it.
-/

namespace Relata

open Relation (ReflTransGen)
open Act (Runs Reaches Ends)

namespace World

variable {τ : Type} {w w' w'' : World τ} {id : ObjectId} {name : String}

/-- No relation of an object has changed, no registry, and no class. -/
structure Undisturbed (w w' : World τ) : Prop where
  relations : w.Untouched w'
  registries : w'.registries = w.registries
  lookup : w'.toLookup = w.toLookup

theorem Undisturbed.refl (w : World τ) : w.Undisturbed w := ⟨.of_objects rfl, rfl, rfl⟩

theorem Undisturbed.trans (h : w.Undisturbed w') (h' : w'.Undisturbed w'') : w.Undisturbed w'' where
  relations := ⟨fun id => (h'.relations.slots id).trans (h.relations.slots id),
    h.relations.grown.trans h'.relations.grown⟩
  registries := h'.registries.trans h.registries
  lookup := h'.lookup.trans h.lookup

end World

namespace SlotChange

/-- The change begins to load the relation, or takes that back. -/
def Passing (name : String) : SlotChange → Prop
  | begin_ other | abandon other => other = name
  | set _ _ | forget _ => False

end SlotChange

namespace Entity

/-- The relations of two objects are the same, but for whether `name` is being loaded. -/
structure AlikeBut (name : String) (e e' : Entity) : Prop where
  value : ∀ other : String, e'.value? (.text other) = e.value? (.text other)
  state : ∀ other : String, other ≠ name → e'.state (.text other) = e.state (.text other)

variable {e e' e'' : Entity} {name : String} {c : SlotChange}

theorem AlikeBut.refl (name : String) (e : Entity) : AlikeBut name e e :=
  ⟨fun _ => rfl, fun _ _ => rfl⟩

theorem AlikeBut.trans (h : AlikeBut name e e') (h' : AlikeBut name e' e'') : AlikeBut name e e'' :=
  ⟨fun other => (h'.value other).trans (h.value other),
    fun other apart => (h'.state other apart).trans (h.state other apart)⟩

theorem AlikeBut.of_slots (same : e'.slots = e.slots) : AlikeBut name e e' :=
  ⟨fun _ => value?_of_slots same _, fun other _ => by
    rw [Entity.state, Entity.state, Entity.slot?, Entity.slot?, same]⟩

theorem alikeBut_onEntity (h : c.Passing name) : AlikeBut name e (c.onEntity e) := by
  cases c with
  | set _ _ | forget _ => exact h.elim
  | begin_ other =>
    obtain rfl : other = name := h
    exact ⟨value?_beginLoading e _, fun n apart => by
      rw [SlotChange.onEntity, state_beginLoading_text, if_neg fun own => apart own.1]⟩
  | abandon other =>
    obtain rfl : other = name := h
    exact ⟨value?_abandonLoading e _, fun n apart => by
      rw [SlotChange.onEntity, state_abandonLoading_text, if_neg fun own => apart own.1]⟩

/-- A relation that is neither loaded nor being loaded has not been asked for. -/
theorem state_eq_of_alikeBut (h : AlikeBut name e e') (idle : e.state (.text name) ≠ .loading)
    (after : e'.state (.text name) ≠ .loading) : e'.state (.text name) = e.state (.text name) := by
  have loaded : e'.state (.text name) = .loaded ↔ e.state (.text name) = .loaded := by
    rw [state_eq_loaded_iff, state_eq_loaded_iff, h.value]
  revert idle after loaded
  cases e.state (.text name) <;> cases e'.state (.text name) <;> simp

end Entity

namespace World

variable {τ : Type} {w w' : World τ} {id : ObjectId} {name : String}

/-- What beginning to load a relation, or taking it back, leaves of each object. -/
theorem alikeBut_changed {changes : List (ObjectId × SlotChange)}
    (passing : ∀ c ∈ changes, c.2.Passing name) {e : Entity} (there : w.object? id = some e) :
    ∃ e', (w.changed changes).object? id = some e' ∧ e.AlikeBut name e' ∧
      (id ∉ changes.map (·.1) → e' = e) := by
  induction changes generalizing w e with
  | nil => exact ⟨e, there, .refl name e, fun _ => rfl⟩
  | cons c rest ih =>
    have next : (w.modified c.1 c.2.onEntity).object? id =
        some (if c.1 = id then c.2.onEntity e else e) := by
      rw [object?_modified, there]
      split <;> rfl
    obtain ⟨e', later, alike, same⟩ := ih (fun c there => passing c (.tail _ there)) next
    refine ⟨e', later, .trans ?_ alike, fun apart => ?_⟩
    · split
      · exact Entity.alikeBut_onEntity (passing c (.head _))
      · exact .refl name e
    · simp only [List.map_cons, List.mem_cons, not_or] at apart
      rw [same apart.2, if_neg (Ne.symm apart.1)]

/-- Changes to relations are changes to objects. -/
theorem changed_eq (w : World τ) (changes : List (ObjectId × SlotChange)) :
    w.changed changes = { w with objects := (w.changed changes).objects } := by
  induction changes generalizing w with
  | nil => rfl
  | cons c rest ih => exact ih _

theorem registries_changed (w : World τ) (changes : List (ObjectId × SlotChange)) :
    (w.changed changes).registries = w.registries := by
  rw [w.changed_eq changes]

end World

/-- Statements are answered as the function says. -/
def Obeys (answers : Request → Except Error (List Row)) (sent : Dialogue) : Prop :=
  ∀ p ∈ sent, p.2 = answers p.1

/-- With the answers that the function gives, a run that nobody disturbs goes on as it does by itself. -/
theorem Process.Goes.leads {σ : Type} {answers : Request → Except Error (List Row)} {p q : Process σ}
    {s t : σ} {sent : Dialogue} (h : Goes Eq p s sent q t) (obeys : Obeys answers sent) :
    Leads answers p s q t := by
  induction h with
  | rest p s => exact .rest p s
  | get _ ih => exact .get (ih obeys)
  | set _ ih => exact .set (ih obeys)
  | @ask r _ _ _ _ rows _ _ same _ ih =>
    obtain ⟨own, others⟩ := List.forall_mem_cons.mp obeys
    obtain rfl : rows = answers r := own
    subst same
    exact .ask (ih others)

theorem Act.Runs.comes {σ α : Type} {answers : Request → Except Error (List Row)} {x : Act σ α} {s t : σ}
    {sent : Dialogue} {r : Except Error α} (h : Runs Eq x s sent r t) (obeys : Obeys answers sent) :
    Comes answers x s r t := fun next => (h next).leads obeys

/-- Answered in the same way, a process comes to one end only. -/
theorem Process.Goes.unique_of_obeys {σ : Type} {p : Process σ} {s t u : σ} {sent sent' : Dialogue}
    {o o' : Except Error Value} {answers : Request → Except Error (List Row)}
    (h : Process.Goes Eq p s sent (.done o) t) (h' : Process.Goes Eq p s sent' (.done o') u)
    (obeys : Obeys answers sent) (obeys' : Obeys answers sent') : sent = sent' ∧ o = o' ∧ t = u := by
  generalize ended : Process.done o = q at h
  induction h generalizing sent' with
  | rest =>
    subst ended
    cases h'
    exact ⟨rfl, rfl, rfl⟩
  | get _ ih =>
    cases h' with
    | get h' => exact ih h' obeys obeys' ended
  | set _ ih =>
    cases h' with
    | set h' => exact ih h' obeys obeys' ended
  | @ask _ _ _ _ _ rows _ _ same _ ih =>
    subst same
    cases h' with
    | @ask _ _ _ _ _ rows' _ _ same' h' =>
      subst same'
      obtain ⟨own, others⟩ := List.forall_mem_cons.mp obeys
      obtain ⟨own', others'⟩ := List.forall_mem_cons.mp obeys'
      obtain rfl : rows = rows' := own.trans own'.symm
      obtain ⟨rfl, rfl, rfl⟩ := ih h' others others' ended
      exact ⟨rfl, rfl, rfl⟩

theorem Act.Runs.unique_of_obeys {σ α : Type} {x : Act σ α} {s t u : σ} {sent sent' : Dialogue}
    {r r' : Except Error α} {answers : Request → Except Error (List Row)} (h : Runs Eq x s sent r t)
    (h' : Runs Eq x s sent' r' u) (obeys : Obeys answers sent) (obeys' : Obeys answers sent') :
    sent = sent' ∧ r = r' ∧ t = u := by
  classical
  let next : Except Error α → Process σ := fun a => .done (if a = r then .ok .null else .error .badType)
  have goes := h next
  have goes' := h' next
  obtain ⟨rfl, same, rfl⟩ := goes.unique_of_obeys goes' obeys obeys'
  refine ⟨rfl, Classical.byContradiction fun other => ?_, rfl⟩
  simp [Ne.symm other] at same

namespace Deed

variable {τ : Type} {rely : World τ → World τ → Prop}

theorem runs_changes (changes : List (ObjectId × SlotChange)) (w : World τ) :
    Runs rely (changes.forM fun c => modifyEntity (.object c.1) c.2.onEntity) w [] (.ok ())
      (w.changed changes) := by
  induction changes generalizing w with
  | nil => exact .ofExcept (.ok ()) w
  | cons c rest ih => exact Runs.bind (.modify _ w) (ih _)

/-- The same change on each of some objects. -/
theorem runs_change_each (c : SlotChange) (ids : List ObjectId) (w : World τ) :
    Runs rely ((ids.map Value.object).forM fun o => modifyEntity o c.onEntity) w [] (.ok ())
      (w.changed (ids.map (·, c))) := by
  have runs := @runs_changes _ rely (ids.map (·, c)) w
  rw [List.forM_eq_forM, List.forM_map] at runs ⊢
  exact runs

/-- A deed made of the pieces of loading runs to a result: to the one that it comes to by itself. -/
theorem Made.runs {α : Type} {R : World τ → World τ → Prop} {x : Deed τ α} (h : Made R x)
    (refl : ∀ w, rely w w) (answers : Request → Except Error (List Row)) (w : World τ) :
    ∃ sent r w', Runs rely x w sent r w' ∧ Act.Comes answers x w r w' ∧ Obeys answers sent := by
  have silent : Obeys answers [] := List.forall_mem_nil _
  induction h generalizing w with
  | ofExcept r => exact ⟨_, r, w, .ofExcept r w, .ofExcept r w, silent⟩
  | bind _ _ ihx ihf =>
    obtain ⟨sent, r, w', runs, comes, obeys⟩ := ihx w
    cases r with
    | error e => exact ⟨sent, _, w', runs.bind_error _, comes.bind_error _, obeys⟩
    | ok a =>
      obtain ⟨later, r, w'', runs', comes', obeys'⟩ := ihf a w'
      exact ⟨sent ++ later, r, w'', runs.bind runs', comes.bind comes',
        List.forall_mem_append.mpr ⟨obeys, obeys'⟩⟩
  | attempt _ ih =>
    obtain ⟨sent, r, w', runs, comes, obeys⟩ := ih w
    exact ⟨sent, _, w', runs.attempt, comes.attempt, obeys⟩
  | getsExcept f => exact ⟨_, _, w, .getsExcept f w, .getsExcept f w, silent⟩
  | modifyGet f _ => exact ⟨_, _, _, .modifyGet f w, .modifyGet f w, silent⟩
  | ask r _ =>
    exact ⟨_, _, w, .ask r (refl w) (answers r), .ask r w, List.forall_mem_singleton.mpr rfl⟩

end Deed

namespace Loader

variable {τ : Type} {rely : World τ → World τ → Prop}

/-- The queries that a relation is fetched with ask for no relations in turn, in any world that others
may leave. -/
structure AsksNoMore (loader : Loader) (d : Descriptor) (m : Model) (path : String) (w : World τ) :
    Prop where
  chunk : ∀ w', w.Undisturbed w' → ∀ keys q, loader.chunkQuery w'.toEnv d m path keys = .ok q →
    q.loads.paths = []
  target : d.kind = .morphTo → ∀ w', w.Undisturbed w' → ∀ v m', w'.asModel v = .ok m' →
    ∀ w'', w.Undisturbed w'' → ∀ keys q, loader.targetQuery w''.toEnv d m' path keys = .ok q →
      q.loads.paths = []

/-- Those who leave relations, registries and classes alone, beside others who do. -/
abbrev apart : Pact (World τ) := ⟨fun _ _ => True, World.Undisturbed, fun _ => True⟩

theorem upholds_undisturbed (w : World τ) :
    Manner.Upholds apart w.Undisturbed fun _ _ => True where
  own_mono _ _ := trivial
  rely kept others := ⟨kept.trans others, others.relations.grown⟩
  waits _ := trivial
  extended {w' _} kept bare := ⟨trivial, kept.trans ⟨w'.untouched_extended bare, rfl, rfl⟩, trivial⟩
  adopted {_ w' members} kept _ _ := ⟨trivial, kept.trans ⟨w'.untouched_adopted members, rfl, rfl⟩⟩
  warned _ kept := ⟨trivial, kept.trans ⟨.of_objects rfl, rfl, rfl⟩⟩

/-- A fetch that asks for no more leaves relations and registries alone, however it ends. -/
theorem ends_fetching {load : LoadPaths τ} {self : Loader} {d : Descriptor} {m : Model}
    {path : String} {w : World τ} (asks : self.AsksNoMore d m path w) (pending : List Value) :
    Ends apart (fetching load self d m path pending) w fun _ => w.Undisturbed := by
  let M := Manner.upholding (upholds_undisturbed w)
  have fetches : M.Fetches load self d m path :=
    ⟨fun w' kept keys q built some_ => absurd (asks.chunk w' kept keys q built) some_,
      fun kind w' kept v m' known w'' kept' keys q built some_ =>
        absurd (asks.target kind w' kept v m' known w'' kept' keys q built) some_⟩
  exact (M.fetching fetches pending w (.refl w) (Nat.zero_le _)).imp fun _ _ there => there.1

/-- What a fetch that fails leaves of a load: the relation is taken back on all objects. -/
theorem runs_loadPending_of_fails {load : LoadPaths τ} {self : Loader} {d : Descriptor} {m : Model}
    {path name : String} {ids : List ObjectId} {e : Error} {w w' : World τ} {during : Dialogue}
    (fails : Runs rely (fetching load self d m path (ids.map .object))
      (w.changed (ids.map (·, .begin_ name))) during (.error e) w') :
    Runs rely (loadPending load self d m path (.text name) (ids.map .object)) w during (.error e)
      (w'.changed (ids.map (·, .abandon name))) := by
  rw [loadPending_eq]
  have begins : Runs rely _ w [] (.ok ()) (w.changed (ids.map (·, .begin_ name))) :=
    Deed.runs_change_each (.begin_ name) ids w
  have abandons : Runs rely _ w' [] (.ok ()) (w'.changed (ids.map (·, .abandon name))) :=
    Deed.runs_change_each (.abandon name) ids w'
  have concludes : Runs rely (self.conclude (.text name) (ids.map .object) (.error e)) w' [] (.error e)
      (w'.changed (ids.map (·, .abandon name))) := Runs.bind abandons (.ofExcept (.error e) _)
  have rest : Runs rely ((fetching load self d m path (ids.map .object)).attempt >>=
      self.conclude (.text name) (ids.map .object)) (w.changed (ids.map (·, .begin_ name))) during
      (.error e) (w'.changed (ids.map (·, .abandon name))) := by
    simpa only [List.append_nil] using fails.attempt.bind concludes
  exact Runs.bind begins rest

/-- A fetch that fails, however far the load has come before and whatever has been made of the rows so far:
the error reaches whoever loads, and every relation of every object and every registry are as they were
when the load of this relation began. -/
theorem failed_fetch_leaves_no_trace {α : Type} {x : Deed τ α} {w₀ w₁ w₂ : World τ}
    {before during : Dialogue} {depth : Nat} {self : Loader} {d : Descriptor} {m : Model}
    {path name : String} {ids : List ObjectId} {e : Error}
    (others : ∀ {w w'}, rely w w' → World.Undisturbed w w')
    (reaches : Reaches rely (loadPending (below depth) self d m path (.text name) (ids.map .object)) w₁
      x w₀ before)
    (idle : ∀ id ∈ ids, ¬ w₁.Marked id name)
    (asks : self.AsksNoMore d m path (w₁.changed (ids.map (·, .begin_ name))))
    (fails : Runs rely (fetching (below depth) self d m path (ids.map .object))
      (w₁.changed (ids.map (·, .begin_ name))) during (.error e) w₂) :
    ∃ w₃, Runs rely x w₀ (before ++ during) (.error e) w₃ ∧
      (∀ id o, w₁.object? id = some o → ∃ o', w₃.object? id = some o' ∧ ∀ n : String,
        o'.value? (.text n) = o.value? (.text n) ∧ o'.state (.text n) = o.state (.text n)) ∧
      w₃.registries = w₁.registries := by
  have fetched : (w₁.changed (ids.map (·, .begin_ name))).Undisturbed w₂ := by
    have inj : Function.Injective (Except.map Value.list : Except Error (List Value) → _) := by
      intro a b same
      cases a <;> cases b <;> simp_all [Except.map]
    exact (ends_fetching asks (ids.map .object)).holds inj others fails
  refine ⟨_, reaches.fails (runs_loadPending_of_fails fails), fun id o there => ?_, ?_⟩
  · have passing (c : SlotChange) (passes : c.Passing name) :
        ∀ p ∈ ids.map (·, c), p.2.Passing name := by
      simpa using fun _ _ => passes
    obtain ⟨o₁, begun, alike, aside⟩ := World.alikeBut_changed (passing (.begin_ name) rfl) there
    obtain ⟨o₂, made, slots⟩ := fetched.relations.object? begun
    obtain ⟨o₃, ended, alike', aside'⟩ := World.alikeBut_changed (passing (.abandon name) rfl) made
    have whole : o.AlikeBut name o₃ := (alike.trans (.of_slots slots)).trans alike'
    refine ⟨o₃, ended, fun n => ⟨whole.value n, ?_⟩⟩
    by_cases own : n = name
    · subst own
      by_cases waits : id ∈ ids
      · refine Entity.state_eq_of_alikeBut whole (fun marked => idle id waits ⟨o, there, marked⟩)
          fun marked => ?_
        have quiet : ∀ c ∈ ids.map (·, SlotChange.abandon n), c.2 ≠ .begin_ n := by simp
        exact World.not_marked_changed quiet
          (.inr ⟨(id, .abandon n), List.mem_map_of_mem waits, rfl, rfl⟩) ⟨o₃, ended, marked⟩
      · have apart {c : SlotChange} : id ∉ (ids.map (·, c)).map (·.1) := by simpa using waits
        rw [aside' apart, Entity.state, Entity.slot?, slots, aside apart]
        rfl
    · exact whole.state n own
  · rw [World.registries_changed, fetched.registries, World.registries_changed]

/-- A load comes to fetching its first relation for those of the objects that lack it. -/
theorem reaches_load {self : Loader} {objects : List Value} {key : ClassKey} {name : String}
    {names : List String} {ids : List ObjectId} {w : World τ} {m : Model} {d : Descriptor}
    (named : Loader.Names (name :: names)) (objects_ : objects ≠ [])
    (one : ∀ v ∈ objects, v.isNull = false ∧ classKey w.toEnv v = key)
    (known : described w.toEnv false (objects.headD .null) name = .ok (some (m, d)))
    (lacking : (if self.force then objects
      else objects.filter fun o => !w.isLoadedOn (.text name) o) = ids.map .object) (some_ : ids ≠ []) :
    Reaches rely (loadPending (below 399) self d m name (.text name) (ids.map .object)) w
      (load self objects ((name :: names).map .text)) w [] := by
  have waits : (ids.map Value.object).isEmpty = false := by simpa using some_
  have whole : ("" : String) ++ name = name := String.empty_append
  let look : World τ → Except Error (Option (Model × Descriptor)) := fun w =>
    described w.toEnv false (objects.headD .null) name
  refine .reads (reads_loadBelow named objects_ one) (.into (.into ?_))
  refine .reads (Act.Reads.getsExcept_bind (s := w) (f := look) known _) ?_
  refine .reads (Act.Reads.gets_bind _ _ w) ?_
  simp only [lacking, waits, Bool.not_false, if_true, whole]
  exact .into .here

theorem made_fetching {τ : Type} {depth : Nat} {self : Loader} {d : Descriptor} {m : Model}
    {path : String} (pending : List Value) :
    Deed.Made (τ := τ) World.Grows (fetching (below depth) self d m path pending) :=
  (@Manner.fetching _ Deed.making 0 _ _ _ _ _ (Manner.Tends.fetches
    fun _ _ _ _ _ => Deed.making_of_made (made_loadBelow _ _ _ _ _)) pending).1

/-- Each post is asked for by itself. -/
def oneByOne : Loader := ⟨[], [], .null, false, .int 1⟩

/-- There is a reply to the first post; whoever asks for those to the second one is cancelled. -/
def replyToFirst (r : Request) : Except Error (List Row) :=
  if r.params.any (·.same (.int 2)) then .error .cancelled
  else .ok [[("id", .int 10), ("parent", .int 1)]]

/-- The relation of the posts to their replies. -/
def repliesOfPosts : Descriptor :=
  { (default : Descriptor) with
    kind := .hasMany
    target := .model 0
    foreignKey := some "parent"
    localKey := some "id"
    pivotAlias := "pivot" }

def beginning : World Unit := Members.twoPosts.changed ([0, 1].map (·, .begin_ "replies"))

theorem described_replies : described Members.twoPosts.toEnv false (.object 0) "replies" =
    .ok (some (Members.subjectPost, repliesOfPosts)) := by rfl

theorem fetch_cancelled : ∃ during w, Runs Eq (fetching (below 399) oneByOne repliesOfPosts
    Members.subjectPost "replies" ([0, 1].map .object)) beginning during (.error .cancelled) w := by
  let x : Deed Unit (List Value) := fetching (below 399) oneByOne repliesOfPosts Members.subjectPost
    "replies" ([0, 1].map .object)
  have made : Deed.Made World.Grows x := made_fetching _
  obtain ⟨during, r, w, runs, comes, -⟩ :=
    made.runs (fun _ => Eq.refl _) replyToFirst beginning
  let answer : Except Error (List Value) → Except Error Value := fun r => match r with
    | .error .cancelled => .ok .null
    | _ => .error .badType
  have told : (Schedule.finish (((x.attempt >>= fun r => Act.ofExcept (answer r)) .done).answered
      fun r => Act.ofExcept (replyToFirst r)) beginning).1.isOk = true := by decide +kernel
  have comes : Act.Comes replyToFirst (x.attempt >>= fun r => Act.ofExcept (answer r)) beginning
      (answer r) w := comes.attempt.bind (.ofExcept _ w)
  rw [(comes .done).finish] at told
  unfold answer at told
  split at told
  · exact ⟨during, w, runs⟩
  · cases told

theorem asks_replies : oneByOne.AsksNoMore repliesOfPosts Members.subjectPost "replies" beginning where
  chunk w kept keys q built := by
    obtain ⟨related, base, found, queried, loads⟩ := loads_of_unrefined (by rfl) (by rfl) built
    rw [kept.lookup] at found
    have own : beginning.relatedModel repliesOfPosts = .ok Members.subjectPost := by rfl
    obtain rfl := Except.ok.inj (own.symm.trans found)
    obtain rfl := Except.ok.inj (queried.symm.trans (by rfl : _ = Except.ok _))
    rw [loads]
    rfl
  target kind := by cases kind

/-- The second statement is cancelled: so is the load, and nothing shows that there was one. -/
theorem second_chunk_leaves_no_trace :
    (∃ during w, Runs Eq (fetching (below 399) oneByOne repliesOfPosts Members.subjectPost "replies"
      ([0, 1].map .object)) (Members.twoPosts.changed ([0, 1].map (·, .begin_ "replies"))) during
      (.error .cancelled) w) ∧
    ∃ during w, Runs Eq (load oneByOne ([0, 1].map .object) (["replies"].map .text)) Members.twoPosts
      during (.error .cancelled) w ∧
      (∀ id o, Members.twoPosts.object? id = some o → ∃ o', w.object? id = some o' ∧ ∀ n : String,
        o'.value? (.text n) = o.value? (.text n) ∧ o'.state (.text n) = o.state (.text n)) ∧
      w.registries = Members.twoPosts.registries := by
  obtain ⟨during, w, fails⟩ := fetch_cancelled
  have reaches : Reaches Eq (loadPending (below 399) oneByOne repliesOfPosts Members.subjectPost
      "replies" (.text "replies") ([0, 1].map .object)) Members.twoPosts
      (load oneByOne ([0, 1].map .object) (["replies"].map .text)) Members.twoPosts [] := by
    have posts : ∀ v ∈ [0, 1].map Value.object, v.isNull = false ∧
        classKey Members.twoPosts.toEnv v = .model 0 := by simp; decide
    exact reaches_load ⟨by simp, by simp, by simp⟩ (by simp) posts described_replies (by rfl) (by simp)
  have idle : ∀ id ∈ [0, 1], ¬ Members.twoPosts.Marked id "replies" := by
    rintro id - ⟨o, there, marked⟩
    simp [Entity.state, Entity.slot?, Members.bare_twoPosts there, Value.lookup?] at marked
  obtain ⟨w', ends⟩ := failed_fetch_leaves_no_trace (by rintro w _ rfl; exact .refl w) reaches idle
    asks_replies fails
  exact ⟨⟨during, w, fails⟩, during, w', ends⟩

end Loader

end Relata
