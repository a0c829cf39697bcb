import Relata.Proofs.Loading.Dispatched
import Relata.Proofs.Loading.Matching
import Relata.Proofs.Loading.Related
import Relata.Proofs.Loading.Retained

/-!
What a fetch asks for. The fetch for a relation asks for rows by keys that it has read off the objects
that it is for; what its statements bring may ask for relations in turn, and these are loaded on new
objects only. What there was stays meanwhile, and so does what was loaded. `P` tells what may be sent.
-/

namespace Relata

open Act (Runs Carries)
open Deed (Made Stepwise)

namespace World

variable {τ : Type} {w w' w'' : World τ}

/-- What there is stays, and so does what is loaded. -/
structure Endures (w w' : World τ) : Prop where
  retains : w.Retains w'
  grows : w.Grows w'

theorem Endures.refl (w : World τ) : w.Endures w := ⟨.refl w, .refl w⟩

theorem Endures.trans (h : w.Endures w') (h' : w'.Endures w'') : w.Endures w'' :=
  ⟨h.retains.trans h'.retains, h.grows.trans h'.grows⟩

theorem endures_adopted (w : World τ) (members : List ObjectId) : w.Endures (w.adopted members) :=
  ⟨.adopted w members, (w.adds_adopted members).grows⟩

theorem endures_warned (w : World τ) (texts : List String) : w.Endures (w.warned texts) :=
  ⟨.warnings w _, w.grows_warned texts⟩

theorem latitude_endures : Latitude (τ := τ) Endures :=
  ⟨.refl, .trans, fun w _ bare => ⟨.extended w bare, (w.adds_extended bare).grows⟩, endures_adopted,
    Endures.grows⟩

/-- An object holds a key for rows of that model: where the target of the relation depends on the object, its
tag names the model; and the key is read off it, now or later. -/
structure Gives (w : World τ) (d : Descriptor) (related : Model) (o key : Value) : Prop where
  names : d.kind = .morphTo → ∃ tag target, w.propertyOrNull o (Descriptor.written d.typeColumn) = .ok tag ∧
    w.tags.modelFor w.catalog tag = .ok target ∧ w.asModel target = .ok related
  holds : ∃ u : World τ, w.Grows u ∧ u.propertyOrNull o (Descriptor.written d.parentAttribute) = .ok key

end World

/-- An object that has a target is tagged with it. -/
theorem Env.tagged_of_targetFor {env : Env} {d : Descriptor} {path : String} {o target : Value}
    {texts : List String} (h : env.targetFor d path o = .ok (some target, texts)) :
    ∃ tag, env.propertyOrNull o (Descriptor.written d.typeColumn) = .ok tag ∧
      env.tags.modelFor env.catalog tag = .ok target := by
  unfold targetFor at h
  obtain ⟨tag, tagged, h⟩ := ok_of_bind h
  split at h
  · cases Except.ok.inj h
  · obtain ⟨found, looked, h⟩ := ok_of_bind h
    split at h
    · cases Except.ok.inj h
    · split at h
      · obtain ⟨same, -⟩ := Prod.mk.inj (Except.ok.inj h)
        exact ⟨tag, tagged, Option.some.inj same ▸ looked⟩
      · cases h

namespace Query

variable {τ : Type}

/-- The request is the statement of the query, over its connection. -/
def Hands (q : Query) (w : World τ) (r : Request) : Prop :=
  ∃ f n, q.statement.checked "get" = .ok f ∧ w.runner q.select.source.connection = .ok n ∧
    r = ⟨n, f.text, f.values⟩

/-- The query refines what it asks for in turn as is allowed, and its statement may be sent. -/
def Suits (C : List (Value × Value) → Prop) (P : Request → Prop) (w : World τ) (q : Query) : Prop :=
  C q.loads.callbacks ∧ ∀ r, q.Hands w r → P r

end Query

namespace Loader

variable {τ : Type} {w s t : World τ} {sent : Dialogue} {depth : Nat} {self : Loader} {d : Descriptor}
  {parent m : Model} {path : String} {C : List (Value × Value) → Prop} {P : Request → Prop}

theorem ne_nil_of_mem_pieces {more : Nat} {values piece : List Value} (there : piece ∈ pieces more values) :
    piece ≠ [] := by
  fun_induction pieces more values with
  | case1 => cases there
  | case2 v rest ih =>
    rcases List.mem_cons.mp there with rfl | later
    · exact List.cons_ne_nil _ _
    · exact ih later

/-- Pieces of the distinct keys hold keys of the objects, whatever their size. -/
theorem of_mem_chunks {size : Value} {keys piece : List Value} {parts : List (List Value)}
    (cut : chunks size (distinctKeys keys) = .ok parts) (there : piece ∈ parts) :
    piece ≠ [] ∧ ∀ key ∈ piece, key ∈ keys := by
  have sized : ∀ n : Int, (if n = 0 then Except.error Error.badValue else if n < 0 then .ok []
      else .ok (pieces (n.toNat - 1) (distinctKeys keys))) = .ok parts →
        piece ≠ [] ∧ ∀ key ∈ piece, key ∈ keys := by
    intro n cut
    split at cut
    · cases cut
    · split at cut
      · obtain rfl := Except.ok.inj cut
        cases there
      · obtain rfl := Except.ok.inj cut
        exact ⟨ne_nil_of_mem_pieces there, fun key => mem_of_mem_pieces there⟩
  unfold chunks at cut
  dsimp only at cut
  split at cut
  · exact sized _ cut
  · exact sized _ cut
  · cases cut

/-- What is loaded on new objects, refined as is allowed, sends only what may be sent, and what there was
stays. -/
def Tells (C : List (Value × Value) → Prop) (P : Request → Prop) (load : LoadPaths τ) (w : World τ) : Prop :=
  ∀ {s t : World τ} {loader : Loader} {objects paths : List Value} {sent : Dialogue}, w.Endures s →
    (∀ v ∈ objects, ∃ id, w.objects.size ≤ id ∧ id < s.objects.size ∧ v = .object id) →
      loader.force = false → C loader.callbacks → Runs Eq (load loader objects paths) s sent (.ok ()) t →
        s.Endures t ∧ ∀ e ∈ sent, P e.1

theorem Tells.later {load : LoadPaths τ} (h : Tells C P load w) (endures : w.Endures s) : Tells C P load s :=
  fun later new => h (endures.trans later) fun v there => (new v there).imp fun _ own =>
    ⟨endures.retains.size_le.trans own.1, own.2⟩

/-- What does nothing sends nothing. -/
theorem told_pure {α : Type} {a b : α} (carries : Carries (pure a) w sent (.ok b) t) :
    w.Endures t ∧ ∀ e ∈ sent, P e.1 := by
  obtain ⟨rfl, -, rfl⟩ := carries.silent (.ofExcept (.ok a) w)
  exact ⟨.refl _, List.forall_mem_nil _⟩

variable (tells : Tells C P (below depth) w)
include tells

/-- A query whose statement may be sent. -/
theorem told_fetch {q : Query} {keyColumn registry : Value} {page : Query.Fetched} (suits : q.Suits C P w)
    (carries : Carries (q.fetch (below depth) keyColumn registry) w sent (.ok page) t) :
    w.Endures t ∧ ∀ e ∈ sent, P e.1 := by
  obtain ⟨_, later, made, s, u, rfl, ⟨f, n, rows, passed, runner, rfl, -⟩, begins, objects, -, rfl, loads⟩ :=
    Query.runs_fetch_parts World.latitude_endures (fun _ _ => made_loadBelow _ _ _ _ _) carries
  have own : P ⟨n, f.text, f.values⟩ := suits.2 _ ⟨f, n, passed, runner, rfl⟩
  have new : ∀ v ∈ page.members.map Value.object,
      ∃ id, w.objects.size ≤ id ∧ id < s.objects.size ∧ v = .object id := by
    refine List.forall_mem_map.mpr fun o there => ?_
    obtain ⟨p, -, size, holds⟩ := exists_of_mem_right objects there
    exact ⟨o, size, holds.lt_size, rfl⟩
  obtain ⟨endures, others⟩ : s.Endures u ∧ ∀ e ∈ later, P e.1 := by
    obtain ⟨rfl, rfl⟩ | ⟨-, runs⟩ := loads
    · exact ⟨.refl _, List.forall_mem_nil _⟩
    · exact tells begins new rfl suits.1 runs
  exact ⟨begins.trans (endures.trans (u.endures_adopted _)), List.forall_mem_cons.mpr ⟨own, others⟩⟩

/-- A query that is built and run, and after which nothing but reads follow. -/
theorem told_page {α : Type} {built : World τ → Except Error Query} {keyColumn registry : Value}
    {f : Query.Fetched → Deed τ α} {a : α} (asks : ∀ q, built w = .ok q → q.Suits C P w)
    (still : ∀ page {s later}, Carries (f page) s later (.ok a) t → later = [] ∧ t = s)
    (carries : Carries (Act.getsExcept built >>= fun q => q.fetch (below depth) keyColumn registry >>= f)
      w sent (.ok a) t) : w.Endures t ∧ ∀ e ∈ sent, P e.1 := by
  obtain ⟨q, built, fetches⟩ := Deed.carries_getsExcept_bind carries
  obtain ⟨first, later, page, u, rfl, runs, -, reads⟩ :=
    (Query.made_fetch (fun _ _ _ => made_loadBelow _ _ _ _ _) q _ _).ok_of_bind fetches
  obtain ⟨rfl, rfl⟩ := still page reads
  rw [List.append_nil]
  exact told_fetch tells (asks q built) runs.carries

omit tells in
/-- Objects are told by what is read off them. -/
theorem still_read {read : ObjectId → World τ → Except Error Value} {members : List ObjectId}
    {pairs : List (Value × ObjectId)} {later : Dialogue}
    (carries : Carries ((members.mapM fun o => Act.getsExcept (read o)) >>= fun keys =>
      keysMustHash keys >>= fun _ => pure (keys.zip members)) s later (.ok pairs) t) :
    later = [] ∧ t = s := by
  have made : Made World.Grows (members.mapM fun o => Act.getsExcept (read o)) := .mapM fun o => .getsExcept _
  obtain ⟨_, _, keys, u, rfl, gets, -, hashes⟩ := made.ok_of_bind carries
  obtain ⟨rfl, rfl, -⟩ := Deed.carries_reads gets.carries
  obtain ⟨rfl, -, rfl⟩ := (carries_keysMustHash_bind hashes).silent (.ofExcept (.ok _) u)
  exact ⟨rfl, rfl⟩

theorem told_fetchChunk {keys : List Value} {pairs : List (Value × ObjectId)}
    (asks : ∀ q, self.chunkQuery w.toEnv d parent path keys = .ok q → q.Suits C P w)
    (carries : Carries (fetchChunk (below depth) self d parent path keys) w sent (.ok pairs) t) :
    w.Endures t ∧ ∀ e ∈ sent, P e.1 := by
  unfold fetchChunk at carries
  cases column : d.relatedColumn with
  | none =>
    simp only [column] at carries
    refine told_page tells asks (fun page s later rest => ?_) carries
    obtain ⟨rfl, -, rfl⟩ := (carries_keysMustHash_bind rest).silent (.ofExcept (.ok _) s)
    exact ⟨rfl, rfl⟩
  | some name =>
    simp only [column] at carries
    exact told_page tells asks (fun page s later rest => still_read rest) carries

omit tells in
/-- Pages that are fetched one after the other. -/
theorem told_of_stepwise {α β : Type} {f : α → Deed τ β} {xs : List α} {pages : List (Dialogue × β)}
    (steps : Stepwise f w xs pages t)
    (step : ∀ a ∈ xs, ∀ {s s' : World τ} {p : Dialogue × β}, w.Endures s →
      Runs Eq (f a) s p.1 (.ok p.2) s' → s.Endures s' ∧ ∀ e ∈ p.1, P e.1) :
    w.Endures t ∧ ∀ e ∈ pages.flatMap (·.1), P e.1 := by
  obtain ⟨endures, each⟩ := steps.all (R := World.Endures) (Q := fun _ _ p => ∀ e ∈ p.1, P e.1) .refl .trans
    (fun _ own => own) fun a there _ _ _ begun runs _ => step a there begun runs
  refine ⟨endures, fun e among => ?_⟩
  obtain ⟨p, there, own⟩ := List.mem_flatMap.mp among
  obtain ⟨-, -, told⟩ := exists_of_mem_right each there
  exact told e own

omit tells in
/-- A loop of which each round sends only what may be sent, and leaves what there was. -/
theorem told_forM {α : Type} {f : α → Deed τ PUnit} (made : ∀ a, Made World.Grows (f a)) {xs : List α}
    (step : ∀ a ∈ xs, ∀ {s s' : World τ} {sent : Dialogue}, w.Endures s → Runs Eq (f a) s sent (.ok ()) s' →
      s.Endures s' ∧ ∀ e ∈ sent, P e.1) (carries : Carries (xs.forM f) w sent (.ok ()) t) :
    w.Endures t ∧ ∀ e ∈ sent, P e.1 := by
  suffices ∀ s, w.Endures s → Carries (xs.forM f) s sent (.ok ()) t → s.Endures t ∧ ∀ e ∈ sent, P e.1 from
    this w (.refl w) carries
  clear carries
  induction xs generalizing sent with
  | nil =>
    intro s _ carries
    exact told_pure carries
  | cons a rest ih =>
    intro s begun carries
    obtain ⟨first, later, _, u, rfl, runs, -, others⟩ := (made a).ok_of_bind carries
    obtain ⟨here, told⟩ := step a (.head _) begun runs
    obtain ⟨there, told'⟩ := ih (fun b among => step b (.tail _ among)) u (begun.trans here) others
    exact ⟨here.trans there, fun e among => (List.mem_append.mp among).elim (told e) (told' e)⟩

/-- The fetch for a relation with a fixed target asks by keys of the objects. -/
theorem told_fetchRelated {objects values : List Value}
    (asks : ∀ s, w.Endures s → ∀ keys, keys ≠ [] → (∀ key ∈ keys, ∃ o ∈ objects,
      w.propertyOrNull o (Descriptor.written d.parentAttribute) = .ok key) →
        ∀ q, self.chunkQuery s.toEnv d parent path keys = .ok q → q.Suits C P s)
    (carries : Carries (fetchRelated (below depth) self d parent path objects) w sent (.ok values) t) :
    w.Endures t ∧ ∀ e ∈ sent, P e.1 := by
  obtain ⟨keys, pieces, pages, u, read, cut, rfl, steps, rfl, -⟩ := carries_fetchRelated carries
  obtain ⟨endures, told⟩ := told_of_stepwise (P := P) steps fun piece there s _ _ begun runs => by
    obtain ⟨some_, among⟩ := of_mem_chunks cut there
    exact told_fetchChunk (tells.later begun) (asks s begun piece some_ fun key listed =>
      exists_of_mem_right read (among key listed)) runs.carries
  exact ⟨endures.trans (u.endures_adopted _), told⟩

/-- The fetch for one of the models that tags name asks by identifiers that objects under it hold. -/
theorem told_fetchTargets {target : Value} {members : List Value} {found : List (Value × Value)}
    (asks : ∀ m, w.asModel target = .ok m → ∀ s, w.Endures s → ∀ keys, keys ≠ [] →
      (∀ key ∈ keys, ∃ o ∈ members, w.propertyOrNull o (Descriptor.written d.idColumn) = .ok key) →
        ∀ q, self.targetQuery s.toEnv d m path keys = .ok q → q.Suits C P s)
    (carries : Carries (fetchTargets (below depth) self d path target members) w sent (.ok found) t) :
    w.Endures t ∧ ∀ e ∈ sent, P e.1 := by
  obtain ⟨m, ids, pieces, pages, u, known, read, cut, rfl, steps, rfl, -⟩ := carries_fetchTargets carries
  obtain ⟨endures, told⟩ := told_of_stepwise (P := P) steps fun piece there s _ _ begun runs => by
    obtain ⟨some_, among⟩ := of_mem_chunks cut there
    exact told_page (tells.later begun) (asks m known s begun piece some_ fun key listed =>
      exists_of_mem_right read (among key listed)) (fun page s later rest => still_read rest) runs.carries
  exact ⟨endures.trans (u.endures_adopted _), told⟩

/-- The fetch for a relation whose target depends on the object asks by keys of the objects whose tags name
the model. -/
theorem told_fetchMorphTo {objects values : List Value} (kind : d.kind = .morphTo)
    (asks : ∀ s, w.Endures s → ∀ m keys, keys ≠ [] → (∀ key ∈ keys, ∃ o ∈ objects, w.Gives d m o key) →
      ∀ q, self.targetQuery s.toEnv d m path keys = .ok q → q.Suits C P s)
    (carries : Carries (fetchMorphTo (below depth) self d path objects) w sent (.ok values) t) :
    w.Endures t ∧ ∀ e ∈ sent, P e.1 := by
  obtain ⟨named, found, each, rfl, steps, -⟩ := carries_fetchMorphTo carries
  have warned := w.endures_warned (named.flatMap (·.2))
  obtain ⟨endures, told⟩ := told_of_stepwise (P := P) steps fun group there s _ _ begun runs => by
    have before := warned.trans begun
    refine told_fetchTargets (tells.later before) (fun m known s' later keys some_ held q built => ?_)
      runs.carries
    refine asks s' (before.trans later) m keys some_ (fun key listed => ?_) q built
    obtain ⟨o, member, read⟩ := held key listed
    obtain ⟨_, absurd, -⟩ | ⟨target, pair, same⟩ := mem_filed there member
    · cases absurd
    rw [before.grows.lookup] at known
    obtain rfl := eq_of_same_of_asModel known same
    rw [List.zip_map_right] at pair
    obtain ⟨⟨o, target, texts⟩, among, own⟩ := List.mem_map.mp pair
    obtain ⟨rfl, rfl⟩ := Prod.mk.inj own
    obtain ⟨tag, tagged, looked⟩ := Env.tagged_of_targetFor (List.forall₂_zip each among)
    refine ⟨o, (List.of_mem_zip among).1, fun _ => ⟨tag, group.1, tagged, looked, known⟩, s, before.grows, ?_⟩
    rwa [Descriptor.parentAttribute, kind]
  exact ⟨warned.trans endures, told⟩

/-- Whatever the kind of the relation, its fetch asks by keys of the objects that it is for. -/
theorem told_fetching {objects values : List Value}
    (asks : ∀ s, w.Endures s → ∀ related keys, keys ≠ [] →
      (∀ key ∈ keys, ∃ o ∈ objects, w.Gives d related o key) →
        ∀ q, self.asking s.toEnv d parent related path keys = .ok q → q.Suits C P s)
    (carries : Carries (fetching (below depth) self d parent path objects) w sent (.ok values) t) :
    w.Endures t ∧ ∀ e ∈ sent, P e.1 := by
  unfold fetching at carries
  by_cases kind : d.kind = .morphTo
  · rw [if_pos (by simp [kind])] at carries
    refine told_fetchMorphTo tells kind (fun s later m keys some_ held q built => ?_) carries
    exact asks s later m keys some_ held q (by rwa [asking, if_pos kind])
  · rw [if_neg (by simp [kind])] at carries
    refine told_fetchRelated tells (fun s later keys some_ held q built => ?_) carries
    refine asks s later parent keys some_ (fun key listed => ?_) q (by rwa [asking, if_neg kind])
    obtain ⟨o, there, read⟩ := held key listed
    exact ⟨o, there, fun morph => absurd morph kind, w, .refl w, read⟩

end Loader

end Relata
