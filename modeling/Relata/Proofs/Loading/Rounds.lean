import Relata.Proofs.Loading.Agreeing
import Relata.Proofs.Loading.Failing
import Relata.Proofs.Loading.Partition
import Relata.Proofs.Query.Keyed

/-!
The rounds of one fetch. The keys of the objects are cut into lists, and each round asks for the rows that
belong to the keys of one list. Main statement: the lists of the rounds are a partition of the distinct
keys, in the order in which these are first seen; a fetch that fails has come to the first of them.
-/

namespace Relata

open Act (Runs Carries)
open Deed (Made)

/-- What sends nothing has sent nothing, whatever comes of it. -/
theorem Act.SendsAtMost.quiet {σ α : Type} {x : Act σ α} (h : x.SendsAtMost 0) {s t : σ}
    {sent : Dialogue} {r : Except Error α} (carries : Carries x s sent r t) : sent = [] := by
  have goes := carries (fun _ => .done (.ok .null)) [] _ t (.rest _ _)
  rw [List.append_nil] at goes
  refine List.eq_nil_of_length_eq_zero (Nat.le_zero.mp ?_)
  refine h _ 0 (fun r rely s sent o t ended => ?_) Eq s sent _ t goes
  cases ended
  exact Nat.le_refl 0

variable {τ : Type} {w t : World τ} {sent : Dialogue}

namespace Deed

/-- A loop asks for the items one after the other; one that fails has come to the first of them. -/
theorem rounds_of_mapM {α β : Type} {f : α → Deed τ β} (made : ∀ a, Made World.Grows (f a))
    {P : α → Dialogue → Prop} {w₀ : World τ}
    (step : ∀ a s sent r t, w₀.Grows s → Runs Eq (f a) s sent r t →
      sent = [] ∧ (∃ e, r = .error e) ∨ P a sent)
    {xs : List α} {r : Except Error (List β)} (grown : w₀.Grows w)
    (carries : Carries (xs.mapM f) w sent r t) :
    ∃ asked rounds, asked <+: xs ∧ List.Forall₂ P asked rounds ∧ sent = rounds.flatten ∧
      ∀ bs, r = .ok bs → asked = xs := by
  induction xs generalizing w t sent r with
  | nil =>
    obtain ⟨rfl, -, -⟩ := carries.silent (.ofExcept (.ok []) w)
    exact ⟨[], [], List.prefix_rfl, .nil, rfl, fun _ _ => rfl⟩
  | cons a rest ih =>
    rw [List.mapM_cons] at carries
    rcases (made a).of_bind carries with
      ⟨e, rfl, runs, -⟩ | ⟨first, later, b, w', rfl, runs, grows, carries⟩
    · rcases step a _ _ _ _ grown runs with ⟨rfl, -⟩ | asked
      · exact ⟨[], [], List.nil_prefix, .nil, rfl, nofun⟩
      · exact ⟨[a], [sent], ⟨rest, rfl⟩, .cons asked .nil, by simp, nofun⟩
    · have own : P a first := by
        rcases step a _ _ _ _ grown runs with ⟨-, e, absurd⟩ | asked
        · cases absurd
        · exact asked
      rcases (Made.mapM made).of_bind carries with
        ⟨e, rfl, runs', -⟩ | ⟨second, last, bs, w'', rfl, runs', -, ends⟩
      · obtain ⟨asked, rounds, part, all, rfl, -⟩ := ih (grown.trans grows) runs'.carries
        exact ⟨a :: asked, first :: rounds, List.cons_prefix_cons.mpr ⟨rfl, part⟩, .cons own all, rfl,
          nofun⟩
      · obtain rfl := (Act.SendsAtMost.pure (b :: bs)).quiet ends
        obtain ⟨asked, rounds, -, all, rfl, whole⟩ := ih (grown.trans grows) runs'.carries
        obtain rfl := whole bs rfl
        exact ⟨_, first :: rounds, List.prefix_rfl, .cons own all, by simp, fun _ _ => rfl⟩

end Deed

namespace Query

/-- The statement of the query, and behind it what is sent for the relations that the query asks for. -/
def Leads (q : Query) (w : World τ) (sent : Dialogue) : Prop :=
  ∃ request reply later, q.Hands w request ∧ sent = (request, reply) :: later ∧
    (q.loads.paths = [] → later = [])

/-- A query sends its statement first, if anything. -/
theorem leads_of_fetch {load : LoadPaths τ} {q : Query} {keyColumn registry : Value}
    {r : Except Error Fetched} (carries : Carries (q.fetch load keyColumn registry) w sent r t) :
    sent = [] ∧ (∃ e, r = .error e) ∨ q.Leads w sent := by
  unfold fetch at carries
  cases passed : q.statement.checked "get" with
  | error e =>
    rw [passed] at carries
    obtain ⟨rfl, rfl, -⟩ := carries.silent (.ofExcept (.error e) w)
    exact .inl ⟨rfl, e, rfl⟩
  | ok f =>
    rw [passed] at carries
    rcases (Deed.made_execute passed _).of_bind carries with
      ⟨e, rfl, runs, -⟩ | ⟨first, later, rows, w', rfl, runs, -, rest⟩
    · rcases Deed.of_carries_getsExcept_bind runs.carries with ⟨e, -, -, rfl, -⟩ | ⟨n, runner, asked⟩
      · exact .inl ⟨rfl, _, rfl⟩
      · obtain ⟨rfl, -⟩ := Deed.carries_ask asked
        exact .inr ⟨_, _, [], ⟨f, n, passed, runner, rfl⟩, rfl, fun _ => rfl⟩
    · obtain ⟨n, runner, rfl, -⟩ := Deed.carries_execute runs.carries
      refine .inr ⟨_, _, later, ⟨f, n, passed, runner, rfl⟩, rfl, fun flat => ?_⟩
      refine Act.SendsAtMost.quiet ?_ rest
      simp only [flat, List.isEmpty_nil, Bool.not_true, Bool.false_and, Bool.false_eq_true, if_false]
      have hydrated (row : Row) : (q.hydrate (τ := τ) row).SendsAtMost 0 :=
        (Act.SendsAtMost.getsExcept _).silent_bind fun _ => .modifyGet _
      refine (Act.SendsAtMost.mapM fun row => (Act.SendsAtMost.ofExcept _).silent_bind fun _ =>
        (hydrated _).silent_bind fun _ => .pure _).silent_bind fun made => ?_
      exact (Act.SendsAtMost.modifyGet _).silent_bind fun _ => .pure _

end Query

namespace Loader

variable {depth : Nat} {self : Loader} {d : Descriptor} {parent : Model} {path : String}

/-- One statement may ask for that many keys, at least for one. -/
def Takes (self : Loader) (size : Nat) : Prop :=
  1 ≤ size ∧ (self.chunkSize = .int size ∨ self.chunkSize = .bool true ∧ size = 1)

theorem Takes.chunks_eq {size : Nat} (h : self.Takes size) (values : List Value) :
    chunks self.chunkSize values = .ok (pieces (size - 1) values) := by
  obtain ⟨positive, own | ⟨own, rfl⟩⟩ := h
  · rw [own, chunks]
    dsimp only
    rw [if_neg (by omega), if_neg (by omega), Int.toNat_natCast]
  · rw [own, chunks]
    rfl

/-- One round: at some later time the query for the keys is built, which asks by them; its statement is
sent, with the keys among its values, and behind it whatever is sent for the relations that the query
asks for. -/
def Round (self : Loader) (d : Descriptor) (parent : Model) (path : String) (w : World τ)
    (keys : List Value) (sent : Dialogue) : Prop :=
  ∃ (s : World τ) (q : Query) (request : Request) (reply : Except Error (List Row)) (later : Dialogue),
    w.Grows s ∧ self.chunkQuery s.toEnv d parent path keys = .ok q ∧ q.AsksBy s.toEnv d parent keys ∧
    q.Hands s request ∧ keys <:+: request.params ∧ sent = (request, reply) :: later ∧
    (q.loads.paths = [] → later = [])

theorem quiet_keysMustHash (values : List Value) : (keysMustHash (τ := τ) values).SendsAtMost 0 := by
  refine (Act.SendsAtMost.gets _).silent_bind fun hash => ?_
  split
  · exact .ofExcept _
  · exact .pure _

theorem round_of_fetchChunk {w₀ : World τ} {keys : List Value} {r : Except Error (List (Value × ObjectId))}
    (grown : w₀.Grows w) (runs : Runs Eq (fetchChunk (below depth) self d parent path keys) w sent r t) :
    sent = [] ∧ (∃ e, r = .error e) ∨ self.Round d parent path w₀ keys sent := by
  have made_fetch (q : Query) (column : Value) :
      Made World.Grows (q.fetch (τ := τ) (below depth) column self.registry) :=
    Query.made_fetch (fun _ _ _ => made_loadBelow _ _ _ _ _) q _ _
  -- The rows of a page are only looked at, whatever their keys are.
  have page {q : Query} {column : Value} {g : Query.Fetched → Deed τ (List (Value × ObjectId))}
      (built : self.chunkQuery w.toEnv d parent path keys = .ok q)
      (quiet : ∀ page, (g page).SendsAtMost 0)
      (carries : Carries (q.fetch (below depth) column self.registry >>= g) w sent r t) :
      sent = [] ∧ (∃ e, r = .error e) ∨ self.Round d parent path w₀ keys sent := by
    have leads (part : Dialogue) (h : q.Leads w part) : self.Round d parent path w₀ keys part := by
      obtain ⟨request, reply, later, ⟨f, n, written, runner, rfl⟩, rfl, flat⟩ := h
      have asks := asksBy_of_chunkQuery built
      exact ⟨w, q, _, reply, later, grown, built, asks, ⟨f, n, written, runner, rfl⟩, asks.values written,
        rfl, flat⟩
    rcases (made_fetch q column).of_bind carries with
      ⟨e, rfl, failed, -⟩ | ⟨first, later, fetched, w', rfl, fetches, -, rest⟩
    · exact (Query.leads_of_fetch failed.carries).imp (fun none => ⟨none.1, e, rfl⟩) (leads sent)
    · obtain rfl := (quiet fetched).quiet rest
      rw [List.append_nil]
      rcases Query.leads_of_fetch fetches.carries with ⟨-, e, absurd⟩ | sends
      · cases absurd
      · exact .inr (leads first sends)
  rcases Deed.of_carries_getsExcept_bind runs.carries with ⟨e, -, rfl, rfl, -⟩ | ⟨q, built, carries⟩
  · exact .inl ⟨rfl, e, rfl⟩
  · cases column : d.relatedColumn with
    | none =>
      rw [column] at carries
      exact page built (fun page => (quiet_keysMustHash _).silent_bind fun _ => .pure _) carries
    | some name =>
      rw [column] at carries
      exact page built (fun page => (Act.SendsAtMost.mapM fun o => .getsExcept _).silent_bind fun keys =>
        (quiet_keysMustHash _).silent_bind fun _ => .pure _) carries

/-- The rounds of a fetch, however it ends and whatever it is answered with. Either the keys of the objects
cannot be read or are no keys, and nothing is sent; or the distinct keys are cut into lists as the size has
it, and there is one round for each of the first of these lists, for all of them if the fetch does not
fail. -/
theorem fetch_goes_by_partition {size : Nat} (takes : self.Takes size) {objects : List Value}
    {r : Except Error (List Value)}
    (runs : Runs Eq (fetchRelated (below depth) self d parent path objects) w sent r t) :
    sent = [] ∧ (∃ e, r = .error e) ∨
    ∃ keys lists asked rounds,
      List.Forall₂ (fun o key => w.propertyOrNull o (Descriptor.written d.parentAttribute) = .ok key)
        objects keys ∧
      FirstSeen keys (distinctKeys keys) ∧ Partition size (distinctKeys keys) lists ∧
      (lists.Pairwise fun a b => ∀ v ∈ a, ∀ u ∈ b, v.same u = false ∧ u.same v = false) ∧
      asked <+: lists ∧ List.Forall₂ (self.Round d parent path w) asked rounds ∧ sent = rounds.flatten ∧
      ∀ values, r = .ok values →
        asked = lists ∧ rounds.length = ((distinctKeys keys).length + size - 1) / size := by
  have made_reads : Made World.Grows (objects.mapM fun o =>
      Deed.propertyOrNull (τ := τ) o (Descriptor.written d.parentAttribute)) :=
    .mapM fun o => Deed.made_propertyOrNull _ _
  have quiet_reads : (objects.mapM fun o =>
      Deed.propertyOrNull (τ := τ) o (Descriptor.written d.parentAttribute)).SendsAtMost 0 :=
    .mapM fun o => .getsExcept _
  rcases made_reads.of_bind runs.carries with
    ⟨e, rfl, failed, -⟩ | ⟨_, _, keys, w₁, rfl, gets, -, hashes⟩
  · exact .inl ⟨quiet_reads.quiet failed.carries, e, rfl⟩
  obtain ⟨rfl, rfl, read⟩ := Deed.carries_reads gets.carries
  rcases (made_keysMustHash _).of_bind hashes with
    ⟨e, rfl, failed, -⟩ | ⟨_, _, _, w₂, rfl, hashed, grows, fetches⟩
  · exact .inl ⟨(quiet_keysMustHash _).quiet failed.carries, e, rfl⟩
  obtain rfl := (quiet_keysMustHash _).quiet hashed.carries
  have hash : ∀ key ∈ keys, key.isNull = false → key.isKey = true := fun key there given =>
    Env.isKey_of_isKey (Env.areKeys_iff.mp (areKeys_of_carries hashed.carries) key
      (List.mem_filter.mpr ⟨there, by simp [given]⟩))
  have seen := firstSeen_distinctKeys hash
  rw [takes.chunks_eq] at fetches
  have partition := partition_pieces (size - 1) (distinctKeys keys)
  rw [Nat.sub_add_cancel takes.1] at partition
  have step (keys : List Value) (s : World τ) (sent r t) (grown : w₁.Grows s)
      (runs : Runs Eq (fetchChunk (below depth) self d parent path keys) s sent r t) :=
    round_of_fetchChunk grown runs
  rcases (Made.mapM made_fetchChunk).of_bind fetches with
    ⟨e, rfl, failed, -⟩ | ⟨_, last, pages, w₃, rfl, fetched, -, rest⟩
  · obtain ⟨asked, rounds, part, all, rfl, -⟩ :=
      Deed.rounds_of_mapM made_fetchChunk step grows failed.carries
    exact .inr ⟨keys, _, asked, rounds, read, seen, partition, partition.disjoint seen, part, all, rfl,
      nofun⟩
  · obtain ⟨asked, rounds, part, all, rfl, whole⟩ :=
      Deed.rounds_of_mapM made_fetchChunk step grows fetched.carries
    obtain rfl : last = [] := by
      refine Act.SendsAtMost.quiet ?_ rest
      refine (Act.SendsAtMost.modifyGet _).discard.silent_bind fun _ => ?_
      exact .mapM fun o => (Act.SendsAtMost.getsExcept _).silent_bind fun _ => .pure _
    obtain rfl := whole pages rfl
    exact .inr ⟨keys, _, _, rounds, read, seen, partition, partition.disjoint seen, part, all, by simp,
      fun _ _ => ⟨rfl, all.length_eq.symm.trans partition.count⟩⟩

/-- Two posts that are asked for one by one make two rounds. -/
theorem two_rounds_for_two_posts : oneByOne.Takes 1 ∧ ∃ during values w,
    Runs Eq (fetchRelated (below 399) oneByOne repliesOfPosts Members.subjectPost "replies"
      ([0, 1].map .object)) beginning during (.ok values) w ∧
    ∃ lists rounds, List.Forall₂ (oneByOne.Round repliesOfPosts Members.subjectPost "replies" beginning)
      lists rounds ∧ lists.flatten = [.int 1, .int 2] ∧ rounds.length = 2 ∧ during = rounds.flatten := by
  let x : Deed Unit (List Value) := fetchRelated (below 399) oneByOne repliesOfPosts Members.subjectPost
    "replies" ([0, 1].map .object)
  have takes : oneByOne.Takes 1 := ⟨by decide, .inl rfl⟩
  have made : Made World.Grows x :=
    @made_fetching Unit 399 oneByOne repliesOfPosts Members.subjectPost "replies" ([0, 1].map .object)
  obtain ⟨during, r, w, runs, comes, -⟩ := made.runs (fun _ => Eq.refl _) (fun _ => .ok []) beginning
  have ends : (Schedule.finish (((x >>= fun _ => pure Value.null) .done).answered
      fun _ => Act.ofExcept (.ok [])) beginning).1.isOk = true := by decide +kernel
  cases r with
  | error e =>
    rw [((comes.bind_error fun _ => pure Value.null) .done).finish] at ends
    cases ends
  | ok values =>
    refine ⟨takes, during, values, w, runs, ?_⟩
    obtain ⟨-, e, absurd⟩ | ⟨keys, lists, asked, rounds, read, -, partition, -, -, all, sent, whole⟩ :=
      fetch_goes_by_partition takes runs
    · cases absurd
    · obtain ⟨rfl, count⟩ := whole values rfl
      cases read with
      | cons first read => cases read with
        | cons second read => cases read with
          | nil =>
            obtain rfl := Except.ok.inj (first.symm.trans (by rfl : _ = Except.ok (Value.int 1)))
            obtain rfl := Except.ok.inj (second.symm.trans (by rfl : _ = Except.ok (Value.int 2)))
            exact ⟨asked, rounds, all, partition.flatten, count, sent⟩

end Loader

end Relata
