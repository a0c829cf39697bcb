import Relata.Proofs.Query.Lasting
import Relata.Proofs.Store.Tables

/-!
Cancelling what a query asks for. A query asks for paths of relations, and restricts or refines some of
them; the calls that ask for relations and those that cancel some keep the three in step. What is cancelled
by name is gone with its restriction and its refinement, and nothing else is.
-/

namespace Relata

namespace RelationPath

/-- The path `p` goes to the relation at `r`, or past it. -/
def Reaches (p r : String) : Prop := steps r <+: steps p

instance (p r : String) : Decidable (Reaches p r) := inferInstanceAs (Decidable (steps r <+: steps p))

end RelationPath

namespace LoadRequest

/-- The columns that a path is restricted to, if it is. -/
def restriction? (r : LoadRequest) (path : String) : Option Value := Value.lookup? (.text path) r.columns

/-- The refinement of a path, if it has one. -/
def refinement? (r : LoadRequest) (path : String) : Option Value := Value.lookup? (.text path) r.callbacks

/-- Paths have no columns left in them, and only what is asked for is restricted or refined. -/
structure Tidy (r : LoadRequest) : Prop where
  bare : ∀ path : String, .text path ∈ r.paths → ':' ∉ path.toList
  restricted : ∀ path, (r.restriction? path).isSome → .text path ∈ r.paths
  refined : ∀ path, (r.refinement? path).isSome → .text path ∈ r.paths

theorem tidy_empty : empty.Tidy where
  bare _ absurd := by cases absurd
  restricted _ absurd := by cases absurd
  refined _ absurd := by cases absurd

variable {r : LoadRequest} {path : Value}

theorem mem_addPath {p : Value} : p ∈ (r.addPath path).paths →
    p ∈ r.paths ∨ p = path := by
  unfold addPath
  dsimp only
  split
  · exact .inl
  · intro there
    rcases List.mem_append.mp there with old | new
    · exact .inl old
    · exact .inr (List.mem_singleton.mp new)

theorem mem_addPath_of_mem {p : Value} (there : p ∈ r.paths) : p ∈ (r.addPath path).paths := by
  unfold addPath
  dsimp only
  split
  · exact there
  · exact List.mem_append_left _ there

theorem mem_addPath_self (s : String) : .text s ∈ (r.addPath (.text s)).paths := by
  unfold addPath
  dsimp only
  split
  · next known =>
    obtain ⟨p, there, same⟩ := List.any_eq_true.mp known
    exact Value.eq_text_of_same same ▸ there
  · exact List.mem_append_right _ (.head _)

theorem Tidy.addPath (h : r.Tidy) (bare : ∀ s, path = .text s → ':' ∉ s.toList) :
    (r.addPath path).Tidy where
  bare s there := (mem_addPath there).elim (h.bare s) fun own => bare s own.symm
  restricted s some_ := mem_addPath_of_mem (h.restricted s some_)
  refined s some_ := mem_addPath_of_mem (h.refined s some_)

/-- What stands under a text after an entry is put in was there, or is the entry. -/
theorem isSome_put {entries : List (Value × Value)} {v : Value} {s : String} (key : path.isKey = true)
    (h : (Value.lookup? (.text s) (Value.put entries path v)).isSome) :
    path = .text s ∨ (Value.lookup? (.text s) entries).isSome := by
  rw [Value.lookup?_put (Entity.isKey_text s) key] at h
  split at h
  · next same => exact .inl (Value.eq_text_of_same same)
  · exact .inr h

theorem Tidy.restrict (h : r.Tidy) (key : path.isKey = true)
    (asked : ∀ s, path = .text s → .text s ∈ r.paths) (columns : Value) :
    (r.restrict path columns).Tidy where
  bare := h.bare
  restricted s some_ := (isSome_put key some_).elim (asked s) (h.restricted s)
  refined := h.refined

theorem Tidy.refine (h : r.Tidy) (key : path.isKey = true)
    (asked : ∀ s, path = .text s → .text s ∈ r.paths) (callback : Value) :
    (r.refine path callback).Tidy where
  bare := h.bare
  restricted := h.restricted
  refined s some_ := (isSome_put key some_).elim (asked s) (h.refined s)

/-- What a filter keeps under a text was there, and the text passes. -/
theorem lookup?_filter {entries : List (Value × Value)} (keep : Value → Bool) (s : String) :
    Value.lookup? (.text s) (entries.filter (keep ·.1)) =
      if keep (.text s) then Value.lookup? (.text s) entries else none := by
  induction entries with
  | nil => simp [Value.lookup?]
  | cons e rest ih =>
    by_cases same : (Value.text s).same e.1 = true
    · have own := Value.eq_text_of_same same
      by_cases kept : keep (.text s) = true
      · rw [List.filter_cons_of_pos (by rwa [own]), if_pos kept, Value.lookup?, Value.lookup?, if_pos same,
          if_pos same]
      · rw [List.filter_cons_of_neg (by rwa [own]), ih, if_neg kept, if_neg kept]
    · have passed : ∀ rest : List (Value × Value),
          Value.lookup? (.text s) (e :: rest) = Value.lookup? (.text s) rest := fun rest => by
        rw [Value.lookup?, if_neg same]
      rw [passed, List.filter_cons]
      split
      · rw [passed, ih]
      · exact ih

section Remove

variable {removed : List Value}

theorem restriction?_remove (s : String) : (r.remove removed).restriction? s =
    if removed.any (Value.text s).same then none else r.restriction? s := by
  refine (lookup?_filter (fun p => !removed.any p.same) s).trans ?_
  cases removed.any (Value.text s).same <;> rfl

theorem refinement?_remove (s : String) : (r.remove removed).refinement? s =
    if removed.any (Value.text s).same then none else r.refinement? s := by
  refine (lookup?_filter (fun p => !removed.any p.same) s).trans ?_
  cases removed.any (Value.text s).same <;> rfl

theorem mem_remove {p : Value} :
    p ∈ (r.remove removed).paths ↔ p ∈ r.paths ∧ removed.any p.same = false := by
  simp [remove]

/-- What is cancelled is gone with its restriction and its refinement. -/
theorem Tidy.remove (h : r.Tidy) : (r.remove removed).Tidy where
  bare s there := h.bare s (mem_remove.mp there).1
  restricted s some_ := by
    rw [restriction?_remove] at some_
    split at some_
    · cases some_
    · next kept => exact mem_remove.mpr ⟨h.restricted s some_, Bool.eq_false_of_not_eq_true kept⟩
  refined s some_ := by
    rw [refinement?_remove] at some_
    split at some_
    · cases some_
    · next kept => exact mem_remove.mpr ⟨h.refined s some_, Bool.eq_false_of_not_eq_true kept⟩

end Remove

end LoadRequest

namespace Build

theorem keeps_checkKey {I : Query → Prop} {v : Value} : Keeps I (checkKey v) fun _ => v.isKey = true := by
  unfold checkKey
  split
  · next key => exact .pure key
  · exact .throw

theorem tidy_request {path : Value} (bare : ∀ s, path = .text s → ':' ∉ s.toList)
    (columns : List Value) (callback : Value) :
    Keeps (fun q => q.loads.Tidy) (request path columns callback) fun _ => True := by
  -- Once the path has been asked for, it may be restricted and refined.
  let Asked (q : Query) : Prop := q.loads.Tidy ∧ ∀ s, path = .text s → .text s ∈ q.loads.paths
  have refined : Keeps Asked
      (if !callback.isNull then do checkKey path; modifyLoads (·.refine path callback)
        else pure ()) fun _ => True := by
    split
    · exact keeps_checkKey.bind fun _ key => .changeLoads fun q asked =>
        ⟨asked.1.refine key asked.2 callback, asked.2⟩
    · exact .pure trivial
  intro q tidy _ after run
  obtain ⟨_, _, added, rest⟩ := ok_of_bind run
  cases added
  have asked : Asked { q with loads := q.loads.addPath path } :=
    ⟨tidy.addPath bare, fun s same => by subst same; exact LoadRequest.mem_addPath_self s⟩
  have kept := fun whole : Keeps Asked _ fun _ => True => whole _ asked _ _ rest
  refine ⟨(kept ?_).1.1, trivial⟩
  dsimp only
  split
  · exact keeps_checkKey.bind fun _ key => (Keeps.changeLoads fun q asked =>
      ⟨asked.1.restrict key asked.2 (.list columns), asked.2⟩).seq refined
  · exact refined

/-- Whatever is done to a query, what it asks for stays tidy. -/
theorem lasting_tidy : Query.Lasting fun q => q.loads.Tidy where
  select _ _ _ tidy := tidy
  branches _ _ tidy := tidy
  request _ columns callback bare := tidy_request bare columns callback
  anew _ _ := LoadRequest.tidy_empty
  remove _ _ tidy := tidy.remove

end Build

/-- Queries that can be arrived at ask for paths in order. -/
theorem Query.Arises.tidy {m : Model} {q : Query} (h : q.Arises m) : q.loads.Tidy :=
  Build.lasting_tidy.of_arises LoadRequest.tidy_empty h

/-- Paths as they are given to be cancelled: one of them, or a list. -/
inductive PathArgument where
  | one (path : String)
  | several (paths : List String)

namespace PathArgument

def value : PathArgument → Value
  | one path => .text path
  | several paths => .list (paths.map .text)

def paths : PathArgument → List String
  | one path => [path]
  | several paths => paths

theorem flatten_values (given : List PathArgument) :
    Value.flatten (given.map value) = (given.flatMap paths).map .text := by
  induction given with
  | nil => rfl
  | cons argument rest ih =>
    rw [List.map_cons, List.flatMap_cons, List.map_append, ← ih]
    cases argument <;> rfl

end PathArgument

/-- The query without the paths named. -/
def Query.cancelling (q : Query) (names : List String) : Query :=
  { q with loads := q.loads.remove (names.map .text) }

namespace LoadRequest

theorem any_same_texts (names : List String) (s : String) :
    (names.map Value.text).any (Value.text s).same = decide (s ∈ names) := by
  rw [Bool.eq_iff_iff, List.any_eq_true, decide_eq_true_iff]
  constructor
  · rintro ⟨v, there, same⟩
    obtain ⟨t, own, rfl⟩ := List.mem_map.mp there
    cases Value.eq_text_of_same same
    exact own
  · exact fun there => ⟨_, List.mem_map_of_mem there, by simp [Value.same]⟩

theorem paths_remove_texts {r : LoadRequest} {paths : List String} (texts : r.paths = paths.map .text)
    (names : List String) :
    (r.remove (names.map .text)).paths = (paths.filter (· ∉ names)).map .text := by
  have kept (s : String) : (!(names.map Value.text).any (Value.text s).same) = decide (s ∉ names) := by
    rw [any_same_texts, decide_not]
  rw [remove, texts, List.filter_map]
  exact congrArg (List.map Value.text) (List.filter_congr fun s _ => kept s)

end LoadRequest

/-- What is left of a query when paths have been cancelled by name: the other ones, each with its
restriction and its refinement, and nothing that is of no path. -/
structure Query.Cancelled (before after : Query) (names rest : List String) : Prop where
  select : after.select = before.select
  branches : after.branches = before.branches
  paths : after.loads.paths = rest.map .text
  restriction : ∀ s, after.loads.restriction? s = if s ∈ names then none else before.loads.restriction? s
  refinement : ∀ s, after.loads.refinement? s = if s ∈ names then none else before.loads.refinement? s
  accounted : ∀ s, s ∉ rest → after.loads.restriction? s = none ∧ after.loads.refinement? s = none

theorem Query.cancelled_cancelling {q : Query} {paths : List String}
    (texts : q.loads.paths = paths.map .text) (tidy : q.loads.Tidy) (names : List String) :
    q.Cancelled (q.cancelling names) names (paths.filter (· ∉ names)) := by
  have left := LoadRequest.paths_remove_texts texts names
  have away {s : String} (out : s ∉ paths.filter (· ∉ names)) :
      .text s ∉ (q.cancelling names).loads.paths := by
    intro there
    rw [cancelling, left] at there
    obtain ⟨s', own, same⟩ := List.mem_map.mp there
    exact out (Value.text.inj same ▸ own)
  have tidy' : (q.cancelling names).loads.Tidy := tidy.remove
  refine ⟨rfl, rfl, left, fun s => ?_, fun s => ?_, fun s out => ⟨?_, ?_⟩⟩
  · refine (LoadRequest.restriction?_remove s).trans ?_
    simp only [LoadRequest.any_same_texts, decide_eq_true_eq]
  · refine (LoadRequest.refinement?_remove s).trans ?_
    simp only [LoadRequest.any_same_texts, decide_eq_true_eq]
  · exact Option.not_isSome_iff_eq_none.mp fun some_ => away out (tidy'.restricted s some_)
  · exact Option.not_isSome_iff_eq_none.mp fun some_ => away out (tidy'.refined s some_)

namespace Build

theorem settleItems_given (env : Env) (inner : Caller) (given : List PathArgument) (q : Query) :
    settleItems env inner (given.map PathArgument.value) q = .ok (given.map PathArgument.value) q := by
  have one (argument : PathArgument) :
      settle env inner argument.value q = .ok argument.value q := by
    cases argument with
    | one path => rfl
    | several paths =>
      change (Value.list <$> settleItems env inner (paths.map .text)) q = _
      rw [map_eq_pure_bind]
      exact bind_eq_ok (settleItems_texts env inner paths q) rfl
  induction given with
  | nil => rfl
  | cons argument rest ih => exact bind_eq_ok (one argument) (bind_eq_ok ih rfl)

/-- Texts can be keys. -/
theorem checkKeys_eq_ok (names : List String) (q : Query) :
    (names.map Value.text).forM checkKey q = .ok () q := by
  induction names with
  | nil => rfl
  | cons name rest ih => exact bind_eq_ok (by rw [checkKey, if_pos (Entity.isKey_text name)]; rfl) ih

/-- A call that cancels paths changes nothing else about the query. -/
theorem call_without (env : Env) {q : Query} {paths : List String} (texts : q.loads.paths = paths.map .text)
    (given : List PathArgument) :
    env.call (.mk "without" (given.map PathArgument.value) []) q =
      .ok .self (q.cancelling (given.flatMap PathArgument.paths)) := by
  have bare : givenNames env ((given.map PathArgument.value).map some) = given.map PathArgument.value := by
    have listed (argument : PathArgument) : env.listed argument.value = argument.value := by
      cases argument <;> rfl
    rw [givenNames_map_some, List.map_map]
    exact List.map_congr_left fun argument _ => listed argument
  have cancels : without (given.map PathArgument.value) q =
      .ok () (q.cancelling (given.flatMap PathArgument.paths)) := by
    unfold without
    rw [PathArgument.flatten_values]
    refine bind_eq_ok (checkKeys_eq_ok _ q) ?_
    have read : (get : Build Query) q = .ok q q := rfl
    refine bind_eq_ok read (bind_eq_ok (a := ()) ?_ rfl)
    rw [texts]
    exact checkKeys_eq_ok _ q
  rw [← bare] at cancels
  exact bind_eq_ok (settleItems_given env _ given q)
    (bind_eq_ok rfl (bind_eq_ok rfl (bind_eq_ok cancels rfl)))

end Build

end Relata
