import Relata.Proofs.Loading.Dispatched
import Relata.Proofs.Loading.Twice

/-!
Keys that are null. No statement asks for the related objects of an object whose key is null. What is
found for the other objects is looked up by key all the same, and a row may well bring no key along: the
object comes to hold what was found under null. So it holds nothing exactly if every object that was
found had a key.
-/

namespace Relata

open Act (Runs Carries)
open Deed (Made)

namespace World

variable {τ : Type} {w : World τ} {id : ObjectId} {name : String}

/-- The object has nothing under that name, or null, and no load changes that. -/
def Lacks (w : World τ) (id : ObjectId) (name : String) : Prop :=
  ∀ w', w.Grows w' → w'.propertyOrNull (.object id) name = .ok .null

theorem lacks_of_column {e : Entity} {m : Model} (there : w.object? id = some e)
    (known : w.catalog.model? e.model = some m) (plain : m.Plain name) (null : e.column name = .null) :
    w.Lacks id name := fun w' grows => by
  rw [← null]
  exact ((holds_of_object? there).later grows).propertyOrNull (grows.lookup ▸ known) plain

/-- The key by which the related objects of an object are looked for is null or absent. Where the target
depends on the row, this is the tag or the identifier. -/
def LacksKey (w : World τ) (d : Descriptor) (id : ObjectId) : Prop :=
  if d.kind = .morphTo then
    w.Lacks id (Descriptor.written d.typeColumn) ∨ w.Lacks id (Descriptor.written d.idColumn)
  else w.Lacks id (Descriptor.written d.parentAttribute)

theorem Lacks.later {w' : World τ} (h : w.Lacks id name) (grows : w.Grows w') : w'.Lacks id name :=
  fun w'' more => h w'' (grows.trans more)

theorem LacksKey.later {w' : World τ} {d : Descriptor} (h : w.LacksKey d id) (grows : w.Grows w') :
    w'.LacksKey d id := by
  unfold LacksKey at *
  split
  · next kind =>
    rw [if_pos kind] at h
    exact h.imp (·.later grows) (·.later grows)
  · next kind =>
    rw [if_neg kind] at h
    exact h.later grows

end World

/-- What a relation holds that leads nowhere. -/
def Descriptor.nothing (d : Descriptor) : Value := if d.kind.isSingle then .null else .list []

namespace Value

theorem same_null (v : Value) : v.same .null = v.isNull := by
  cases v <;> simp [same, isNull, toInt?]

theorem null_same (v : Value) : null.same v = v.isNull := by
  cases v <;> simp [same, isNull]

end Value

namespace Loader

variable {τ : Type} {w t : World τ} {sent : Dialogue} {depth : Nat} {self : Loader} {d : Descriptor}
  {m : Model} {path name : String} {ids : List ObjectId} {id : ObjectId}

/-- Of the objects found, each with its key, those that have none. -/
def keyless (related : List (Value × ObjectId)) : List Value :=
  (related.filter (·.1.isNull)).map (.object ·.2)

theorem keyless_cons (p : Value × ObjectId) (rest : List (Value × ObjectId)) :
    keyless (p :: rest) = if p.1.isNull then .object p.2 :: keyless rest else keyless rest := by
  unfold keyless
  rw [List.filter_cons]
  split <;> simp

theorem keyless_eq_nil_iff {related : List (Value × ObjectId)} :
    keyless related = [] ↔ ∀ p ∈ related, p.1.isNull = false := by
  simp [keyless, List.filter_eq_nil_iff]

/-- What is filed under a key leaves what is filed under null. -/
theorem under_null_add {key : Value} (given : key.isNull = false) (v : Value) (groups : Matches) :
    (groups.add key v).under .null = groups.under .null := by
  unfold Matches.add Matches.under
  split
  · congr 1
    clear * - given
    induction groups with
    | nil => rfl
    | cons e rest ih =>
      rw [List.map_cons, Value.lookup?, Value.lookup?, ih]
      by_cases null : e.1.isNull = true
      · have apart : key.same e.1 = false := by
          obtain ⟨k, vs⟩ := e
          cases k <;> first | (rw [Value.same_null]; exact given) | cases null
        simp [apart]
      · have other : Value.null.same (if key.same e.1 then (e.1, e.2 ++ [v]) else e).1 = false := by
          rw [Value.null_same]
          split <;> simpa using null
        rw [other, Value.null_same, Bool.eq_false_of_not_eq_true null]
        rfl
  · rw [Matches.lookup?_append]
    simp [Value.lookup?, Value.null_same, given]

theorem under_null (related : List (Value × ObjectId)) (groups : Matches) :
    (related.foldl (fun (m : Matches) (key, o) => m.add key (.object o)) groups).under .null =
      groups.under .null ++ keyless related := by
  induction related generalizing groups with
  | nil => simp [keyless]
  | cons p rest ih =>
    obtain ⟨key, o⟩ := p
    rw [List.foldl_cons, ih, keyless_cons]
    cases null : key.isNull with
    | false => simp [under_null_add null]
    | true =>
      obtain rfl : key = .null := by
        cases key <;> first | rfl | cases null
      have hash : Value.null.isKey = true := rfl
      simp [Matches.under_add hash hash, Value.null_same, Value.isNull]

theorem heldFor_null (related : List (Value × ObjectId)) : heldFor d related .null =
    if d.kind.isSingle then (keyless related).headD .null else .list (keyless related) := by
  rw [heldFor, under_null]
  rfl

theorem bearer_null (related : List (Value × ObjectId)) :
    bearer related .null = (keyless related).headD .null := by
  induction related with
  | nil => rfl
  | cons p rest ih =>
    rw [bearer, Value.lookup?, Value.null_same, keyless_cons]
    cases null : p.1.isNull with
    | true => rfl
    | false => exact ih

/-- The objects among which the related ones of an object are looked for, each with the key that it is
found by: those of the whole fetch, or those of the model that its tag names. -/
inductive Sought (loader : Loader) (d : Descriptor) (m : Model) (path : String) (ids : List ObjectId)
    (w t : World τ) (sent : Dialogue) (id : ObjectId) : List (Value × ObjectId) → Prop
  | fetched {pages : List (Dialogue × List (Value × ObjectId))} : d.kind ≠ .morphTo →
    sent = pages.flatMap (·.1) → Pages World.Grows loader d m path (ids.map .object) w t pages →
      Sought loader d m path ids w t sent id (pages.flatMap (·.2))
  | targets {group : Value × List Value} {texts : List String} {before after : Dialogue}
    {pages : List (Dialogue × List (Value × ObjectId))} : d.kind = .morphTo →
    w.targetFor d path (.object id) = .ok (some group.1, texts) → .object id ∈ group.2 →
    sent = before ++ pages.flatMap (·.1) ++ after → TargetPages World.Grows loader d path w t group pages →
      Sought loader d m path ids w t sent id (pages.flatMap (·.2))
  | nowhere {texts : List String} : d.kind = .morphTo →
    w.targetFor d path (.object id) = .ok (none, texts) → Sought loader d m path ids w t sent id []

theorem Sought.later {t' : World τ} {related : List (Value × ObjectId)}
    (h : Sought self d m path ids w t sent id related) (grows : t.Grows t') :
    Sought self d m path ids w t' sent id related := by
  cases h with
  | fetched fixed told pages =>
    obtain ⟨keys, pieces, read, cut, each⟩ := pages
    exact .fetched fixed told ⟨keys, pieces, read, cut,
      each.imp fun _ _ own => own.later World.latitude_grows (·.later grows) grows⟩
  | targets kind named member told pages =>
    exact .targets kind named member told (pages.later World.latitude_grows grows)
  | nowhere kind named => exact .nowhere kind named

/-- Each page has sent its statement. -/
theorem Page.sends {built : World τ → Except Error Query} {column : Value}
    {foundBy : World τ → Value × Entity → Value × ObjectId → Prop}
    {page : Dialogue × List (Value × ObjectId)} (h : Page World.Grows built column foundBy w t page) :
    page.1 ≠ [] := by
  obtain ⟨w', q, made, -, -, ⟨asked, later, told, -, ⟨f, n, rows, -, -, rfl, -⟩⟩, -⟩ := h
  simp [told]

theorem Sought.eq_nil_of_silent {related : List (Value × ObjectId)}
    (h : Sought self d m path ids w t [] id related) : related = [] := by
  have none_ {pages : List (Dialogue × List (Value × ObjectId))} (silent : pages.flatMap (·.1) = [])
      (sends : ∀ page ∈ pages, page.1 ≠ []) : pages.flatMap (·.2) = [] := by
    cases pages with
    | nil => rfl
    | cons page rest => exact absurd (List.append_eq_nil_iff.mp silent).1 (sends page (.head _))
  cases h with
  | fetched _ told own =>
    obtain ⟨_, _, -, -, each⟩ := own
    refine none_ told.symm fun page there => ?_
    obtain ⟨_, -, page⟩ := exists_of_mem_right each there
    exact page.sends
  | targets _ _ _ told own =>
    obtain ⟨_, _, _, _, -, -, -, -, each⟩ := own
    have silent := (List.append_eq_nil_iff.mp (List.append_eq_nil_iff.mp told.symm).1).2
    refine none_ silent fun page there => ?_
    obtain ⟨_, -, page⟩ := exists_of_mem_right each there
    exact page.sends
  | nowhere => rfl

theorem nests_targets {w' : World τ} (keys : List Value) (q : Query) (registry : Value)
    (_ : self.targetQuery w'.toEnv d m path keys = .ok q) :
    q.Nests (τ := τ) World.Grows (below depth) registry := .of_made fun _ _ _ => made_loadBelow _ _ _ _ _

theorem mem_of_flatMap_split {α β : Type} {f : α → List β} {x : α} {xs : List α} (there : x ∈ xs) :
    ∃ before after, xs.flatMap f = before ++ f x ++ after := by
  obtain ⟨before, after, rfl⟩ := List.append_of_mem there
  exact ⟨before.flatMap f, after.flatMap f, by simp⟩

/-- What a fetch comes to for an object without a key. -/
theorem sought_of_runs {values : List Value}
    (runs : Runs Eq (fetching (below depth) self d m path (ids.map .object)) w sent (.ok values) t) :
    values.length = ids.length ∧ ∀ {id v}, id ∈ ids → w.LacksKey d id →
      (Value.object id, v) ∈ (ids.map Value.object).zip values →
        ∃ related, Sought self d m path ids w t sent id related ∧
          v = if d.kind.isSingle then (keyless related).headD .null else .list (keyless related) := by
  have carries := runs.carries
  unfold fetching at carries
  by_cases kind : d.kind = .morphTo
  · have single : d.kind.isSingle = true := by rw [kind]; rfl
    rw [if_pos (by simp [kind])] at carries
    obtain ⟨named, found, each, dispatch, rfl⟩ := runs_fetchMorphTo World.latitude_grows
      (fun _ _ _ _ _ _ _ _ _ keys q => nests_targets keys q _) carries
    refine ⟨List.length_map _, fun {id v} there lacks among => ?_⟩
    rw [World.LacksKey, if_pos kind] at lacks
    obtain ⟨-, rfl⟩ : id ∈ ids ∧ given found id = v := by simpa [List.zip_map'] using among
    obtain ⟨⟨target, texts⟩, -, own⟩ := exists_of_mem_right each.flip there
    obtain ⟨rfl, nothing⟩ | ⟨group, -, p, hp, pages, rfl, member, told, targets, w', key, before, -, read, value⟩ :=
      dispatch.given_of_named each there own
    · exact ⟨[], .nowhere kind own, by rw [nothing, if_pos single]; rfl⟩
    · have null : key = .null := by
        obtain untagged | null := lacks
        · rw [Env.targetFor, untagged w (.refl w)] at own
          cases own
        · exact Except.ok.inj (read.symm.trans (null w' before))
      obtain ⟨first, last, split⟩ := mem_of_flatMap_split (f := Prod.fst) hp
      have whole : sent = first ++ pages.flatMap (·.1) ++ last := by rw [dispatch.told, split, told]
      refine ⟨_, .targets kind own member whole (targets.before World.latitude_grows (w.grows_warned _)), ?_⟩
      rw [value, null, bearer_null, if_pos single]
  · rw [if_neg (by simp [kind])] at carries
    obtain ⟨pages, told, own, held, grows⟩ := runs_fetchRelated_allowed World.latitude_grows
      (fun _ _ _ _ _ => .of_made fun _ _ _ => made_loadBelow _ _ _ _ _) carries
    refine ⟨by simpa using held.length_eq.symm, fun {id v} there lacks among => ?_⟩
    rw [World.LacksKey, if_neg kind] at lacks
    obtain ⟨key, read, rfl⟩ := List.forall₂_zip held among
    obtain rfl := Except.ok.inj (read.symm.trans (lacks t grows))
    exact ⟨_, .fetched kind told own, heldFor_null _⟩

/-- What is held of what was found without a key, and when this is nothing. -/
theorem eq_nothing_iff (related : List (Value × ObjectId)) :
    (if d.kind.isSingle then (keyless related).headD .null else .list (keyless related)) = d.nothing ↔
      ∀ p ∈ related, p.1.isNull = false := by
  rw [← keyless_eq_nil_iff, Descriptor.nothing]
  split
  · cases found : keyless related with
    | nil => simp
    | cons v rest =>
      obtain ⟨p, -, rfl⟩ : ∃ p ∈ related.filter (·.1.isNull), Value.object p.2 = v :=
        List.mem_map.mp (show v ∈ keyless related from found ▸ .head _)
      simp
  · exact ⟨fun same => Value.list.inj same, fun same => same ▸ rfl⟩

/-- A null key leads to what has no key. Loaded on objects, a relation holds on each of them whose key is
null or absent the objects that were found without a key among those where it is looked for: all of
them or the first one. So it holds nothing there exactly if none of these lacks its key; this is so in
particular if nothing is sent. -/
theorem null_key_holds_the_keyless (present : ∀ id ∈ ids, id < w.objects.size)
    (runs : Runs Eq (loadPending (below depth) self d m path (.text name) (ids.map .object)) w sent (.ok ()) t)
    (there : id ∈ ids) (lacks : w.LacksKey d id) :
    ∃ related, Sought self d m path ids (begun w ids name) t sent id related ∧
      t.valueOf id name = some
        (if d.kind.isSingle then (keyless related).headD .null else .list (keyless related)) ∧
      (t.valueOf id name = some d.nothing ↔ ∀ p ∈ related, p.1.isNull = false) ∧
      (sent = [] → t.valueOf id name = some d.nothing) := by
  obtain ⟨first, last, outcome, w₁, rfl, fetched, grows, concludes⟩ := carries_loadPending runs.carries
  cases outcome with
  | error e =>
    obtain ⟨-, absurd, -⟩ := concludes.silent (runs_abandon e w₁)
    cases absurd
  | ok values =>
    have begins : w.Grows (begun w ids name) := w.grows_begun ids name
    obtain ⟨length, each⟩ := sought_of_runs fetched
    obtain ⟨rfl, altered, set⟩ := concluded length
      (fun id own => (present id own).trans_le (begins.trans grows).size_le) concludes
    obtain ⟨v, among, value⟩ := set id there
    obtain ⟨related, sought, rfl⟩ := each there (lacks.later begins) among
    rw [List.append_nil]
    refine ⟨related, sought.later altered.grows, value, ?_, fun silent => ?_⟩
    · rw [value, Option.some.injEq]
      exact eq_nothing_iff related
    · subst silent
      rw [value, sought.eq_nil_of_silent]
      exact congrArg some ((eq_nothing_iff []).mpr (List.forall_mem_nil _))

/-- A stored post and one that has no identifier yet, with a registry to mark them in. -/
def draftWorld : World Unit :=
  { threadWorld with toEnv := { threadWorld.toEnv with registries := #[.empty Registry.defaultLimit] } }

/-- Of the replies only the titles are fetched. -/
def titlesOnly : Loader :=
  ⟨[], [(.text "replies", .recipe [.mk "select" [.list [.text "title"]] []] false)], .null, false,
    Loader.defaultChunk⟩

def untitled : Request → Except Error (List Row) := fun _ => .ok [[("title", .text "")]]

/-- A reply without the key of its post is attached to a post that has not been stored. -/
theorem draft_holds_reply_without_key :
    ∃ sent t related, Runs Eq (loadPending (below 0) titlesOnly replyRelation threadedPost "replies"
        (.text "replies") ([0, 2].map .object)) draftWorld sent (.ok ()) t ∧
      draftWorld.LacksKey replyRelation 2 ∧
      Sought titlesOnly replyRelation threadedPost "replies" [0, 2] (begun draftWorld [0, 2] "replies") t
        sent 2 related ∧
      t.valueOf 2 "replies" = some (.list (keyless related)) ∧
      t.valueOf 2 "replies" ≠ some replyRelation.nothing := by
  have made : Made World.Grows (loadPending (τ := Unit) (below 0) titlesOnly replyRelation threadedPost
      "replies" (.text "replies") ([0, 2].map .object)) :=
    (@Manner.Loads.loadPending _ _ 0 _ _ _ _ Deed.loads_making tends_making threadedPost "replies" _
      fun _ _ => trivial).1
  obtain ⟨sent, runs, -⟩ := @runs_of_finish untitled _ made draftWorld (by decide +kernel)
  have lacks : draftWorld.LacksKey replyRelation 2 := by
    rw [World.LacksKey, if_neg (by decide)]
    exact World.lacks_of_column (e := storedPost .null) (m := threadedPost) rfl rfl ⟨by decide, by rfl⟩ rfl
  obtain ⟨related, sought, value, nothing, -⟩ :=
    null_key_holds_the_keyless (by decide) runs (.tail _ (.head _)) lacks
  refine ⟨sent, _, related, runs, lacks, sought, value, fun none_ => ?_⟩
  have held : (((Act.leaves untitled (loadPending (below 0) titlesOnly replyRelation threadedPost
      "replies" (.text "replies") ([0, 2].map .object)) draftWorld).valueOf 2 "replies").any
        (·.truthy)) = true := by decide +kernel
  rw [none_] at held
  cases held

end Loader

end Relata
