import Relata.Proofs.Loading.Cancelled
import Relata.Proofs.Loading.Enrolled
import Relata.Proofs.Process.Spans

/-!
What objects know of those that they were fetched with. When a query or a load has come to its end, each
object that it has brought is a member of the collection that it knows; and whichever fetch for a relation
there was on the way, all that it has brought is in one collection, with nothing else, although each page
had one of its own first and more was loaded in between.
-/

namespace Relata

open Act (Runs Reaches Carries)
open Deed (Made Enrolling)
open Process (Goes)

namespace Deed

variable {τ α : Type} {w t : World τ} {sent : Dialogue}

/-- A deed made of the pieces of loading makes such changes as these make, as long as nobody else does. -/
theorem Made.ends {R : World τ → World τ → Prop} {x : Deed τ α} (h : Made R x) (w : World τ) :
    x.Ends ⟨R, Eq, fun _ => True⟩ w fun _ _ => True := by
  induction h generalizing w with
  | ofExcept r => exact .ofExcept trivial
  | bind _ _ ihx ihf => exact (ihx w).bind (fun a s _ => ihf a s) fun _ _ _ => trivial
  | attempt _ ih => exact .attempt (ih w)
  | getsExcept f => exact .getsExcept trivial
  | modifyGet f change => exact .modifyGet (change w) trivial
  | ask r _ => exact .ask trivial fun _ _ _ => trivial

/-- Around a piece the world has grown. -/
theorem Made.grows_around {β : Type} {x : Deed τ α} {y : Deed τ β} {u v : World τ} {during : Dialogue}
    {b : Except Error β} (h : Made World.Grows x) (spans : x.Spans Eq w sent t y u during b v) :
    w.Grows u ∧ v.Grows t :=
  spans.changes (h.ends w) .refl .trans fun same => ⟨same, same ▸ .refl _⟩

end Deed

namespace World

variable {τ : Type} {w t u v : World τ} {made made' : List (List ObjectId)} {once related : List ObjectId}
  {values : List Value}

/-- What a fetch has brought is together for good. -/
theorem Joins.settled (h : u.Joins v related values) (whole : w.Enrols t made once) (before : w.Grows u)
    (piece : u.Enrols v made' []) (after : v.Grows t) : u.Joins t related values where
  united := by
    obtain ⟨c, listed, known⟩ := h.united
    exact ⟨c, after.collection listed, fun o own =>
      whole.settled before piece after (h.brought o own) (known o own)⟩
  brought o own := (h.brought o own).later after
  among := h.among

end World

namespace Loader

variable {τ α : Type} {w t : World τ} {sent : Dialogue}

/-- When a deed has ended, objects know their collections: those that have been brought, those that
relations have come to hold, and those that were fetched together on the way, be it for a relation with a
fixed target or for one of the models that tags name. -/
structure Acquaints (x : Deed τ α) (w : World τ) (sent : Dialogue) (t : World τ) : Prop where
  belongs : ∀ o, w.Brought t o → t.Belongs o
  attached : ∀ id (name : String) v, t.valueOf id name = some v → w.valueOf id name = some v ∨
    ∀ y ∈ t.heldBy v, ∃ o, y = .object o ∧ t.Belongs o
  related : ∀ (depth : Nat) (loader : Loader) (d : Descriptor) (parent : Model) (path : String)
      (objects values : List Value) (u v : World τ) (during : Dialogue),
    x.Spans Eq w sent t (fetchRelated (below depth) loader d parent path objects) u during (.ok values) v →
      ∃ pages, during = pages.flatMap (·.1) ∧ Pages World.Grows loader d parent path objects u v pages ∧
        u.Joins t ((pages.flatMap (·.2)).map (·.2)) values
  targets : ∀ (depth : Nat) (loader : Loader) (d : Descriptor) (path : String) (target : Value)
      (members : List Value) (found : List (Value × Value)) (u v : World τ) (during : Dialogue),
    x.Spans Eq w sent t (fetchTargets (below depth) loader d path target members) u during (.ok found) v →
      ∃ pages, during = pages.flatMap (·.1) ∧
        TargetPages World.Grows loader d path u v (target, members) pages ∧
        u.Joins t ((pages.flatMap (·.2)).map (·.2)) (found.map (·.2))

theorem settling_below (depth : Nat) (self : Loader) (objects paths : List Value) :
    Deed.Settling (τ := τ) (below depth self objects paths) :=
  enrolling_loadBelow depth self objects paths ⟨"", false⟩

theorem acquaints_of_enrolling {x : Deed τ α} {once : α → List ObjectId} (h : Enrolling x once) {a : α}
    (runs : Runs Eq x w sent (.ok a) t) : Acquaints x w sent t := by
  obtain ⟨lists, enrols⟩ := h.enrols runs.carries
  refine ⟨fun o new => enrols.belongs new, fun id name v value => ?_,
    fun depth _ _ _ _ _ _ u v _ spans => ?_, fun depth _ _ _ _ _ _ u v _ spans => ?_⟩
  · refine (enrols.fills id name v value).imp_right fun new y there => ?_
    rw [Env.heldBy_of_objects fun y there => (new y there).imp fun _ own => own.1] at there
    exact (new y there).imp fun o own => ⟨own.1, enrols.belongs own.2⟩
  · obtain ⟨before, after⟩ := h.made.grows_around spans
    obtain ⟨pages, told, own, ⟨_, piece⟩, joins⟩ := joins_fetchRelated (settling_below depth) spans.runs.carries
    exact ⟨pages, told, own, joins.settled enrols before piece after⟩
  · obtain ⟨before, after⟩ := h.made.grows_around spans
    obtain ⟨pages, told, own, ⟨_, piece⟩, joins⟩ := joins_fetchTargets (settling_below depth) spans.runs.carries
    exact ⟨pages, told, own, joins.settled enrols before piece after⟩

/-- A load that has come to a relation, and to its end, has had the relation fetched. -/
theorem spans_of_reaches {x : Deed τ α} {a : α} {s : World τ} {depth : Nat} {self : Loader} {d : Descriptor}
    {m : Model} {path name : String} {ids : List ObjectId}
    (reached : Reaches Eq (loadPending (below depth) self d m path (.text name) (ids.map .object)) s x w [])
    (runs : Runs Eq x w sent (.ok a) t) :
    ∃ during values v, x.Spans Eq w sent t (fetching (below depth) self d m path (ids.map .object))
      (begun s ids name) during (.ok values) v := by
  let code : Except Error α → Except Error Value := fun r => r.map fun _ => .null
  obtain ⟨rest, goes⟩ := reached.goes fun r => .done (code r)
  have made : Made World.Grows (loadPending (below depth) self d m path (.text name) (ids.map .object)) :=
    (enrolling_loadPending (settling_below (τ := τ) depth) _).made
  obtain ⟨first, later, r, u, rfl, pending, -, ends⟩ :=
    made.factors World.Grows.refl World.Grows.trans (goes.past (runs _))
  cases r with
  | error e =>
    obtain ⟨-, absurd, -⟩ := (reached.fails pending).carries.unique runs.carries
      (List.prefix_append first later) (List.prefix_refl _)
    cases absurd
  | ok =>
    obtain ⟨asked, last, outcome, v, rfl, fetches, -, concludes⟩ := carries_loadPending pending.carries
    cases outcome with
    | error e =>
      obtain ⟨-, absurd, -⟩ := concludes.silent (runs_abandon e v)
      cases absurd
    | ok values =>
      have begins : Runs Eq _ s [] (.ok ()) (begun s ids name) := Deed.runs_change_each (.begin_ name) ids s
      rw [loadPending_eq] at goes
      exact ⟨asked, values, v, code, _, [], last ++ later, _, by simp, goes.trans (begins _), fetches,
        concludes rest later _ _ ends⟩

/-- What a query yields is one collection, which each of the objects in it knows; and whatever a query has
brought, with the relations that it asks for, or a load, in chunks of any size and nested however deep, the
objects know their collections when it has ended. -/
theorem fetched_objects_know_their_collection :
    (∀ (q : Query) (registry : Value) (w t : World τ) (sent : Dialogue) (page : Query.Fetched),
      Runs Eq (q.get registry) w sent (.ok page) t →
        t.Unites page.collection page.members ∧ Acquaints (q.get registry) w sent t) ∧
    ∀ (depth : Nat) (self : Loader) (objects paths : List Value) (at_ : Position) (w t : World τ)
      (sent : Dialogue), Runs Eq (loadBelow depth self objects paths at_) w sent (.ok ()) t →
        Acquaints (loadBelow depth self objects paths at_) w sent t := by
  refine ⟨fun q registry w t sent page runs => ?_, fun depth self objects paths at_ w t sent runs =>
    acquaints_of_enrolling (enrolling_loadBelow depth self objects paths at_) runs⟩
  have ih := settling_below (τ := τ) depthLimit
  exact ⟨(enrols_fetch ih runs.carries).2, acquaints_of_enrolling (enrolling_fetch ih q .null registry) runs⟩

/-- Each of the posts has a reply. -/
def replyToEach (r : Request) : Except Error (List Row) :=
  .ok (if r.params.any (·.same (.int 2)) then [[("id", .int 11), ("parent", .int 2)]]
    else [[("id", .int 10), ("parent", .int 1)]])

/-- Posts that are fetched with their replies and the replies to these; and replies to two posts, of which
each is asked for by itself, in one collection after all. -/
theorem replies_know_their_collection :
    (∃ sent page t, Runs Eq (Query.askedReplies.get .null) Members.twoPosts sent (.ok page) t ∧
      page.members ≠ [] ∧ t.Unites page.collection page.members ∧
        Acquaints (Query.askedReplies.get .null) Members.twoPosts sent t) ∧
    ∃ sent t during values v pages,
      Runs Eq (load oneByOne ([0, 1].map .object) (["replies"].map .text)) Members.twoPosts sent (.ok ()) t ∧
      (load oneByOne ([0, 1].map .object) (["replies"].map .text)).Spans Eq Members.twoPosts sent t
        (fetchRelated (below 399) oneByOne repliesOfPosts Members.subjectPost "replies" ([0, 1].map .object))
        beginning during (.ok values) v ∧
      t.collections.toList = [[0, 1], [2], [3], [2, 3]] ∧
      Acquaints (load oneByOne ([0, 1].map .object) (["replies"].map .text)) Members.twoPosts sent t ∧
      during = pages.flatMap (·.1) ∧
      Pages World.Grows oneByOne repliesOfPosts Members.subjectPost "replies" ([0, 1].map .object)
        beginning v pages ∧
      beginning.Joins t ((pages.flatMap (·.2)).map (·.2)) values := by
  constructor
  · obtain ⟨sent, r, runs, -, ends⟩ := runs_shown Query.postsAndReply
      (Query.made_get Query.askedReplies .null) Members.twoPosts fun page => .bool !page.members.isEmpty
    have some_ : (Schedule.finish (((Query.askedReplies.get .null >>=
        fun page => pure (.bool !page.members.isEmpty)) .done).answered
          fun r => Act.ofExcept (Query.postsAndReply r)) Members.twoPosts).1.toOption.any
            (·.same (.bool true)) = true := by decide +kernel
    rw [ends] at some_
    cases r with
    | error e => cases some_
    | ok page =>
      obtain ⟨unites, acquaints⟩ := fetched_objects_know_their_collection.1 _ _ _ _ _ _ runs
      refine ⟨sent, page, _, runs, fun none => ?_, unites, acquaints⟩
      rw [Except.map, none] at some_
      exact absurd some_ (by decide)
  · obtain ⟨sent, runs, -⟩ := @runs_of_finish replyToEach _ (made_load oneByOne ([0, 1].map .object)
      (["replies"].map .text)) Members.twoPosts (by decide +kernel)
    have posts : ∀ v ∈ [0, 1].map Value.object, v.isNull = false ∧
        classKey Members.twoPosts.toEnv v = .model 0 := by simp; decide
    have reached : Reaches Eq (loadPending (below 399) oneByOne repliesOfPosts Members.subjectPost
        "replies" (.text "replies") ([0, 1].map .object)) Members.twoPosts
        (load oneByOne ([0, 1].map .object) (["replies"].map .text)) Members.twoPosts [] :=
      reaches_load ⟨by simp, by simp, by simp⟩ (by simp) posts described_replies (by rfl) (by simp)
    obtain ⟨during, values, v, spans⟩ := spans_of_reaches reached runs
    have acquaints := fetched_objects_know_their_collection.2 _ _ _ _ _ _ _ _ runs
    obtain ⟨pages, told, own, joins⟩ := acquaints.related _ _ _ _ _ _ _ _ _ _ spans
    exact ⟨sent, _, during, values, v, pages, runs, spans, by decide +kernel, acquaints, told, own, joins⟩

end Loader

end Relata
