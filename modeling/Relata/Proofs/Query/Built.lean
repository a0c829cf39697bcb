import Relata.Proofs.Query.Calls

/-!
Queries built by matched calls, in any number and any order. The statement of such a query has a
placeholder for each of its values but those that are unclaimed: values bound to columns which a
later selection replaced. None are unclaimed where columns are only replaced while they bind
nothing.
-/

namespace Relata

open Sql (Fragment Select Statement Unmarked marks)
open Sql.Fragment (placeholders)

namespace Sql

/-- How many values are bound to columns that are no longer selected. -/
def Select.unclaimed (s : Select) : Nat := s.bindings.length - marks s.columns

/-- The same over all selects of a statement. -/
def Statement.unclaimed (s : Statement) : Nat := (s.selects.map Select.unclaimed).sum

variable {replacing : Bool}

/-- The values of a kept select are those that have a placeholder and the unclaimed ones. -/
theorem Select.Kept.counts {s : Select} (h : s.Kept replacing) :
    (s.binders.map fun c => placeholders c.text).sum + s.unclaimed =
      (s.binders.map fun c => c.values.length).sum := by
  have tests : ∀ ts : List Test, (∀ t ∈ ts, t.Matched) →
      (ts.map fun t => placeholders t.fragment.text).sum =
        (ts.map fun t => t.fragment.values.length).sum :=
    fun ts matched => congrArg List.sum (List.map_congr_left fun t ht => (matched t ht).balanced)
  have conditions := tests _ h.matched.conditions
  have having := tests _ h.matched.having
  have columns := h.columns
  simp only [binders, unclaimed, List.map_cons, List.map_append, List.sum_cons, List.sum_append,
    List.map_map, Function.comp_def, placeholders_names]
  omega

theorem Select.Kept.unclaimed_eq_zero {s : Select} (h : s.Kept false) : s.unclaimed = 0 := by
  unfold Select.unclaimed
  have claimed := h.claimed rfl
  omega

/-- The values of a statement of kept selects, with a placeholder and without. -/
theorem Statement.placeholders_add_unclaimed {s : Statement}
    (kept : ∀ q ∈ s.selects, q.Kept replacing) {f : Fragment} (h : s.compile = .ok f) :
    placeholders f.text + s.unclaimed = f.values.length := by
  obtain ⟨text, values⟩ := (carries_compile (fun q hq => (kept q hq).matched) h).counts
  rw [text, values, binders, unclaimed]
  generalize s.selects = selects at kept
  induction selects with
  | nil => rfl
  | cons q rest ih =>
    have own := (kept q (by simp)).counts
    have others := ih fun r hr => kept r (by simp [hr])
    simp only [List.flatMap_cons, List.map_cons, List.map_append, List.sum_append, List.sum_cons]
    omega

end Sql

/-- A query that matched calls lead to, from new queries on models. Queries that the calls refer to
are built in the same way. With `false` columns are replaced only while no values are bound to
them. -/
inductive Built : Bool → Query → Prop where
  | start {replacing : Bool} {m : Model} {q : Query} (table : Unmarked m.table)
      (new : m.query = .ok q) : Built replacing q
  | call {replacing : Bool} {env : Env} {q after : Query} {c : Call} {answer : Answer}
      (built : Built replacing q) (names : env.Matched)
      (stored : ∀ (id : QueryId) (r : Query), env.queries[id]? = some r → Built replacing r)
      (matched : env.MatchedCall replacing c) (run : env.call c q = .ok answer after) :
      Built replacing after
  | answer {replacing : Bool} {env : Env} {q after r : Query} {c : Call}
      (built : Built replacing q) (names : env.Matched)
      (stored : ∀ (id : QueryId) (r : Query), env.queries[id]? = some r → Built replacing r)
      (matched : env.MatchedCall replacing c) (run : env.call c q = .ok (.other r) after) :
      Built replacing r
  | select {env : Env} {q after : Query} {c : Call} {answer : Answer}
      (built : Built false q) (names : env.Matched)
      (stored : ∀ (id : QueryId) (r : Query), env.queries[id]? = some r → Built false r)
      (replaces : c.method = "select") (unbound : q.select.bindings = [])
      (matched : env.MatchedCall true c) (run : env.call c q = .ok answer after) :
      Built false after

namespace Build

/-- Selecting columns leaves the values and the branches of a query as they are. -/
theorem keeps_bindings {env : Env} {inner : Caller} {c : Call} (replaces : c.method = "select")
    {bindings : List Value} {branches : List (Bool × Query)} :
    Keeps (fun q => q.select.bindings = bindings ∧ q.branches = branches) (call env inner c)
      fun _ => True := by
  have method : Method.ofName? c.method = some .select := by
    rw [replaces]
    decide
  unfold call
  refine (steady_settleItems c.args).keeps.bind fun args _ => ?_
  refine (steady_settleNamed c.named).keeps.bind fun named _ => ?_
  rw [method]
  refine (Keeps.ofExcept fun _ _ => trivial).bind fun bound _ => ?_
  unfold perform
  dsimp only
  refine Keeps.seq (P := fun _ => True) ?_ (.pure trivial)
  unfold select
  exact .changeSelect fun q hq => hq

end Build

theorem Built.kept {replacing : Bool} {q : Query} (h : Built replacing q) : q.Kept replacing := by
  induction h with
  | start table new => exact .query table new
  | call _ names _ matched run ih stored =>
    exact (Build.keeps_callUpTo names Build.callDepth _ stored _ matched _ ih _ _ run).1
  | answer _ names _ matched run ih stored =>
    exact (Build.keeps_callUpTo names Build.callDepth _ stored _ matched _ ih _ _ run).2
  | select _ names _ replaces unbound matched run ih stored =>
    have loose := (Build.keeps_callUpTo names Build.callDepth true
      (fun id r hr => (stored id r hr).loosen) _ matched _ ih.loosen _ _ run).1
    obtain ⟨bindings, branches⟩ := (Build.keeps_bindings replaces _ ⟨rfl, rfl⟩ _ _ run).1
    refine ⟨{ loose.1 with claimed := fun _ => ?_ }, fun b hb => ih.2 b (by rwa [← branches])⟩
    have bound := loose.1.columns
    rw [bindings, unbound] at bound ⊢
    exact Nat.le_zero.mp bound

theorem Built.kept_selects {replacing : Bool} {q : Query} (h : Built replacing q) :
    ∀ s ∈ q.statement.selects, s.Kept replacing := by
  intro s hs
  obtain rfl | hs := List.mem_cons.mp hs
  · exact h.kept.1
  · simp only [Query.statement, List.map_map, List.mem_map] at hs
    obtain ⟨b, hb, rfl⟩ := hs
    exact h.kept.2 b hb

/-- A selection replaces the columns and leaves all values that are bound to them unclaimed. -/
theorem unclaimed_of_select {values : List Value} (names : marks (Value.flatten values) = 0)
    {q after : Query} (run : Build.select values q = .ok () after) :
    after.select.unclaimed = q.select.bindings.length := by
  have none : marks (if (Value.flatten values).isEmpty then [.text "*"]
      else Value.flatten values) = 0 := by
    split
    · decide
    · exact names
  cases run
  simp only [Select.unclaimed, none, Nat.sub_zero]

/-- The statement of a query built by matched calls has a placeholder for each value that is not
unclaimed; so for each one, if columns were replaced only while nothing was bound to them. -/
theorem placeholders_of_built {replacing : Bool} {q : Query} (built : Built replacing q)
    {context : String} {f : Fragment} (h : q.statement.checked context = .ok f) :
    placeholders f.text + q.statement.unclaimed = f.values.length ∧
      (replacing = false → placeholders f.text = f.values.length) := by
  have kept := built.kept_selects
  have total := Statement.placeholders_add_unclaimed kept (Statement.checked_eq_ok_iff.mp h).1
  refine ⟨total, fun hr => ?_⟩
  subst hr
  have none : q.statement.unclaimed = 0 := by
    rw [Statement.unclaimed, List.sum_eq_zero_iff_forall_eq_nat]
    intro n hn
    obtain ⟨s, hs, rfl⟩ := List.mem_map.mp hn
    exact (kept s hs).unclaimed_eq_zero
  omega

/-- A model without relations. -/
def plainPost : Model where
  id := 0
  name := "Post"
  key := "Post"
  ancestry := [.model 0, .root]
  bases := [.root]
  fields := []
  namedTable := .text "posts"
  softDeletes := false
  morphClass := .null
  morphTypes := []
  connection := .text "default"
  defaultWith := []
  hidden := []
  declared := []
  ownStatic := none
  static := []
  ownScopes := []
  scopes := []

/-- What calls can refer to, where nothing but that model is there. -/
def plainEnv : Env where
  catalog := ⟨#[plainPost]⟩
  tags := .empty
  objects := #[]
  collections := #[]
  queries := #[]
  registries := #[]
  stored := []

theorem matched_plainEnv : plainEnv.Matched := by
  have only : ∀ id m, plainEnv.catalog.model? id = some m → m = plainPost := by
    intro id m h
    have member := Array.mem_of_getElem? h
    simpa [plainEnv] using member
  have none : ∀ name, ∃ e, plainEnv.require plainPost name = .error e := by
    intro name
    exact ⟨.relationNotFound "Post" name.shown, by cases name <;> rfl⟩
  refine ⟨fun id m h => ?_, fun id m h name d hd => ?_, fun id m h name d hd => ?_⟩
  · rw [only id m h]
    decide
  · obtain ⟨e, he⟩ := none name
    rw [only id m h, he] at hd
    cases hd
  · obtain ⟨e, he⟩ := none name
    rw [only id m h, he] at hd
    cases hd

/-- A column that binds a value. -/
def bindingCall : Call := .mk "select_raw" [.text "? AS n", .list [.int 1]] []

/-- A selection in place of all columns before it. -/
def replacingCall : Call := .mk "select" [.text "id"] []

def newPosts : Query := .blank plainPost.source .null

def boundPosts : Query :=
  { newPosts with
    select :=
      { newPosts.select with columns := [.text "*", .text "? AS n"], bindings := [.int 1] } }

def replacedPosts : Query :=
  { newPosts with
    select := { newPosts.select with columns := [.text "id"], bindings := [.int 1] } }

theorem matched_bindingCall (replacing : Bool) : plainEnv.MatchedCall replacing bindingCall := by
  rintro args named ⟨q, after, hargs⟩ ⟨r, end_, hnamed⟩ m bound hm hb
  cases hargs
  cases hnamed
  cases hm
  cases hb
  rintro opened ⟨q, after, ho⟩ given ⟨r, end_, hg⟩ items ⟨s, end_, hi⟩
  cases ho
  cases hg
  cases hi
  decide

theorem matched_replacingCall : plainEnv.MatchedCall true replacingCall := by
  rintro args named ⟨q, after, hargs⟩ ⟨r, end_, hnamed⟩ m bound hm hb
  cases hargs
  cases hnamed
  cases hm
  cases hb
  exact ⟨rfl, by decide⟩

theorem built_boundPosts (replacing : Bool) : Built replacing boundPosts := by
  have start : Built replacing newPosts := @Built.start _ plainPost _ (by decide) rfl
  have run : plainEnv.call bindingCall newPosts = .ok .self boundPosts := rfl
  exact start.call matched_plainEnv (fun id r h => by simp [plainEnv] at h)
    (matched_bindingCall replacing) run

theorem built_replacedPosts : Built true replacedPosts := by
  have run : plainEnv.call replacingCall boundPosts = .ok .self replacedPosts := rfl
  exact (built_boundPosts true).call matched_plainEnv (fun id r h => by simp [plainEnv] at h)
    matched_replacingCall run

/-- The selection leaves a value without its placeholder; before it there was one. -/
theorem replacedPosts_unclaimed :
    (boundPosts.statement.checked "statement" =
        .ok ⟨"SELECT *, ? AS n FROM posts", [.int 1]⟩ ∧
      placeholders "SELECT *, ? AS n FROM posts" = [Value.int 1].length) ∧
    replacedPosts.statement.checked "statement" = .ok ⟨"SELECT id FROM posts", [.int 1]⟩ ∧
    placeholders "SELECT id FROM posts" + replacedPosts.statement.unclaimed =
      [Value.int 1].length ∧
    replacedPosts.statement.unclaimed = 1 := by
  have bound : boundPosts.statement.checked "statement" =
      .ok ⟨"SELECT *, ? AS n FROM posts", [.int 1]⟩ := by
    refine Statement.checked_eq_ok_iff.mpr ⟨by rfl, Guard.checkStatement_ofList _ ?_ ?_⟩
    · decide +kernel
    · decide +kernel
  have replaced : replacedPosts.statement.checked "statement" =
      .ok ⟨"SELECT id FROM posts", [.int 1]⟩ := by
    refine Statement.checked_eq_ok_iff.mpr ⟨by rfl, Guard.checkStatement_ofList _ ?_ ?_⟩
    · decide +kernel
    · decide +kernel
  exact ⟨⟨bound, (placeholders_of_built (built_boundPosts false) bound).2 rfl⟩, replaced,
    (placeholders_of_built built_replacedPosts replaced).1, by decide⟩

end Relata
