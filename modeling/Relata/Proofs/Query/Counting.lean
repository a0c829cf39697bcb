import Relata.Loading.Shared
import Relata.Proofs.Sql.Correlated
import Relata.Proofs.Query.Leftover
import Relata.Proofs.Query.Quantified
import Relata.Proofs.Query.Shown

/-!
The statement by which related rows are counted. It selects the identifier of each object that is asked
for, and beside it one number for each relation of the request, in a column named after the relation.
Main statements: what the query consists of, and that the names of its columns are read off it as they
were given, whatever stands inside the counts.
-/

namespace Relata

open Sql (Fragment Select)

/-- A request for relations, as a text, as a list or as a dictionary, and the relations that it names, each
with its refinement. -/
inductive Value.Requests : Value → List (Value × Value) → Prop
  | one (name : String) : Requests (.text name) [(.text name, .null)]
  | list (names : List Value) : Requests (.list names) (names.map (·, .null))
  | tuple (names : List Value) : Requests (.tuple names) (names.map (·, .null))
  | dict (entries : List (Value × Value)) : Requests (.dict entries) entries

/-- The name of the column that counts the rows related by a relation. -/
def Build.countName (relation : Value) : String :=
  String.ofList (relation.shown.toList.map fun c => if c = '.' then '_' else c) ++ "_count"

/-- The column that counts the rows related by a relation. -/
def Build.countColumn (relation : Value) (count : Fragment) : String :=
  "(" ++ count.text ++ ") AS " ++ countName relation

/-- The query with numbers of related rows among its columns. -/
def Query.counting (q : Query) (counts : List (Value × Fragment)) : Query :=
  q.mapSelect fun s => { s with
    columns := s.columns ++ counts.map fun c => .text (Build.countColumn c.1 c.2)
    bindings := s.bindings ++ counts.flatMap (·.2.values) }

theorem Query.counting_nil (q : Query) : q.counting [] = q := by
  obtain ⟨select, branches, loads⟩ := q
  simp [counting, mapSelect]

/-- The identifiers of all rows, deleted ones too. -/
def Model.identifiers (m : Model) : Query where
  select := { Select.all m.source .null with columns := [.text s!"{m.table}.id"], trashed := .included }
  branches := []
  loads := .empty

/-- The query for the rows of a model with these identifiers. -/
def Model.withIds (m : Model) (q : Query) (ids : List Value) : Query :=
  Build.withCondition q (.leaf .and (.among false (m.table ++ ".id") ids))

/-- The statement that counts related rows for the rows with these identifiers. -/
def Model.countStatement (m : Model) (counts : List (Value × Fragment)) (ids : List Value) : Fragment :=
  ⟨"SELECT " ++ ", ".intercalate ((m.table ++ ".id") :: counts.map fun c => Build.countColumn c.1 c.2) ++
      " FROM " ++ m.table ++ " WHERE " ++ m.table ++ ".id" ++ " IN (" ++
      ", ".intercalate (ids.map fun _ => "?") ++ ")",
    counts.flatMap (·.2.values) ++ ids⟩

namespace Build

variable {env : Env} {inner : Caller} {q after : Query}

theorem counted_eq_ok {relations : Value} {requested : List (Value × Value)}
    (names : relations.Requests requested) : counted relations q = .ok requested q := by
  cases names <;> rfl

theorem selectRaw_eq_ok {text : String} {values : List Value} {u : Unit}
    (run : selectRaw (.text text) (.list values) q = .ok u after) :
    after = q.mapSelect fun s =>
      { s with columns := s.columns ++ [.text text], bindings := s.bindings ++ values } := by
  obtain ⟨_, _, guarded, run⟩ := ok_of_bind run
  obtain ⟨-, rfl⟩ := ok_of_ofExcept guarded
  obtain ⟨_, _, widened, run⟩ := ok_of_bind run
  cases widened
  obtain ⟨items, _, given, bound⟩ := ok_of_bind run
  obtain rfl := steady_bindingsOf.same given
  cases bound
  cases values with
  | nil =>
    cases given
    rfl
  | cons v rest =>
    cases given
    rfl

/-- Each relation of a request adds a column that counts its rows, and the values of that count. -/
theorem withCount_eq_ok {relations : Value} {requested : List (Value × Value)} {u : Unit}
    (names : relations.Requests requested) (run : withCount env inner relations q = .ok u after) :
    ∃ counts : List (Value × Fragment), counts.map (·.1) = requested.map (·.1) ∧
      after = q.counting counts := by
  obtain ⟨_, _, read, adds⟩ := ok_of_bind run
  cases (counted_eq_ok names).symm.trans read
  clear read names run
  induction requested generalizing q with
  | nil =>
    cases adds
    exact ⟨[], rfl, (Query.counting_nil _).symm⟩
  | cons r rest ih =>
    obtain ⟨_, between, first, later⟩ := ok_of_bind adds
    obtain ⟨count, _, counted, selected⟩ := ok_of_bind first
    obtain rfl := reads_countQuery.eq_of_ok counted
    obtain rfl := selectRaw_eq_ok selected
    obtain ⟨counts, same, rfl⟩ := ih later
    refine ⟨(r.1, count) :: counts, by simp [same], ?_⟩
    simp [Query.counting, Query.mapSelect, countColumn, countName, String.append_assoc]

theorem call_withCount_eq_ok {relations : Value} {requested : List (Value × Value)} {answer : Answer}
    (filled : env.Filled relations) (names : relations.Requests requested)
    (run : env.call (.mk "with_count" [relations] []) q = .ok answer after) :
    ∃ counts : List (Value × Fragment), counts.map (·.1) = requested.map (·.1) ∧
      after = q.counting counts := by
  obtain ⟨args, _, settled, run⟩ := ok_of_bind run
  cases (settleItems_filled (List.forall_mem_singleton.mpr filled) _ q).symm.trans settled
  obtain ⟨named, _, nothing, run⟩ := ok_of_bind run
  cases nothing
  obtain ⟨_, _, given, run⟩ := ok_of_bind run
  cases given
  obtain ⟨_, between, run, ends⟩ := ok_of_bind run
  cases ends
  obtain ⟨listed, _, opens, run⟩ := ok_of_bind run
  have same : (.ok relations q : EStateM.Result Error Query Value) = .ok listed _ :=
    Eq.trans (by cases names <;> rfl) opens
  cases same
  exact withCount_eq_ok names run

/-- The query by which related rows are counted. -/
theorem countingQuery_eq {m : Model} {base : Query} {relations : Value} {ids : List Value}
    {answer : Answer} (new : m.query = .ok base)
    (accepted : env.call (.mk "with_count" [relations] []) m.identifiers = .ok answer q)
    (keys : env.areKeys ids = true) :
    Deed.countingQuery env m relations ids = .ok (m.withIds q (Value.distinct ids)) := by
  have blank : base.select = .all m.source .null ∧ base.branches = [] :=
    Query.Blind.query (I := fun q => q.select = .all m.source .null ∧ q.branches = []) (fun _ _ own => own)
      ⟨rfl, rfl⟩ new
  obtain ⟨select, branches, loads⟩ := base
  obtain ⟨rfl, rfl⟩ := blank
  unfold Deed.countingQuery
  rw [new]
  have blank : ∀ next : Unit → Build Unit, next () m.identifiers = .ok () (m.withIds q (Value.distinct ids)) →
      (do
        withOnly (.list [])
        Build.select [.text s!"{m.table}.id"]
        modifySelect fun s => { s with trashed := .included }
        next () : Build Unit) ⟨.all m.source .null, [], loads⟩ = .ok () (m.withIds q (Value.distinct ids)) :=
    fun next rest => bind_eq_ok rfl (bind_eq_ok rfl (bind_eq_ok rfl rest))
  refine finish_eq_ok (blank (fun _ => _) (bind_eq_ok (ok_discard accepted) ?_))
  rw [keys]
  exact whereIn_text false _ _ _

end Build

theorem Sql.Select.listed_texts (names : List String) :
    listed (names.map .text) = .ok (", ".intercalate names) := by
  have texts : (names.map Value.text).mapM Value.asText? = some names := by
    induction names with
    | nil => rfl
    | cons name rest ih => simp [Value.asText?, ih]
  rw [listed, texts]

theorem Value.distinct_ne_nil {values : List Value} (some_ : values ≠ []) : distinct values ≠ [] := by
  obtain ⟨v, there⟩ := List.exists_mem_of_ne_nil values some_
  obtain ⟨d, own, -⟩ := among_distinct there
  exact List.ne_nil_of_mem own

/-- A clause that asks for one of some values. -/
theorem Sql.Select.clause_among (column : String) {items : List Value} (some_ : items ≠ []) :
    clause "WHERE" [.leaf .and (.among false column items)] =
      ⟨" WHERE " ++ column ++ " IN (" ++ ", ".intercalate (items.map fun _ => "?") ++ ")", items⟩ := by
  have given : items.isEmpty = false := List.isEmpty_eq_false_iff.mpr some_
  have compiled : Clause.compile [.leaf .and (.among false column items)] =
      ⟨column ++ " IN (" ++ ", ".intercalate (items.map fun _ => "?") ++ ")", items⟩ := by
    simp [Clause.compile, Condition.row, Condition.rowFrom, Condition.tokens, Token.fragment, Test.fragment,
      given, Fragment.concat, Fragment.mk_append, Fragment.empty, String.append_assoc]
  rw [clause, compiled, if_neg (by simp)]
  simp [Fragment.plain, Fragment.mk_append, String.append_assoc]

section CountStatement

variable (m : Model) (counts : List (Value × Fragment)) (ids : List Value)

/-- Deleted rows are not kept away. -/
theorem Model.whereList_withIds : (m.withIds (m.identifiers.counting counts) ids).select.whereList m.table =
    [.leaf .and (.among false (m.table ++ ".id") ids)] := by
  have all : (m.withIds (m.identifiers.counting counts) ids).select.deletionScope m.table = [] := by
    unfold Select.deletionScope
    split <;> rfl
  rw [Select.whereList, all]
  rfl

theorem Model.compile_withIds {ids : List Value} (some_ : ids ≠ []) :
    (m.withIds (m.identifiers.counting counts) ids).statement.compile = .ok (m.countStatement counts ids) := by
  have columns : Select.listed (m.withIds (m.identifiers.counting counts) ids).select.columns = .ok
      (", ".intercalate ((m.table ++ ".id") :: counts.map fun c => Build.countColumn c.1 c.2)) := by
    rw [← Select.listed_texts, List.map_cons, List.map_map]
    rfl
  have body : (m.withIds (m.identifiers.counting counts) ids).select.body = .ok
      (⟨"SELECT " ++ ", ".intercalate ((m.table ++ ".id") :: counts.map fun c => Build.countColumn c.1 c.2) ++
        " FROM " ++ m.table, counts.flatMap (·.2.values)⟩ ++
        Select.clause "WHERE" ((m.withIds (m.identifiers.counting counts) ids).select.whereList m.table)) := by
    rw [Select.body, columns]
    change Except.ok ((⟨"SELECT " ++ "" ++ _ ++ " FROM " ++ m.table, [] ++ _⟩ : Fragment) ++ .empty ++
      Select.clause "WHERE" ((m.withIds (m.identifiers.counting counts) ids).select.whereList m.table) ++
      .empty ++ .empty) = _
    simp only [Fragment.append_empty, String.append_empty, List.nil_append, Sql.toString_text]
  rw [Sql.Statement.compile]
  simp only [Query.statement]
  rw [body, m.whereList_withIds, Select.clause_among _ some_]
  change Except.ok ((_ : Fragment) ++ ⟨_, _⟩ ++ .empty ++ .empty) = _
  rw [Fragment.append_empty, Fragment.append_empty, Fragment.mk_append]
  unfold countStatement
  simp only [String.append_assoc]

end CountStatement

namespace Deed

/-- A text in which no name is given names nothing. -/
theorem search_of_unnamed {text : List Char} (none_ : ¬ " AS ".toList <:+: text) (best : Option (List Char)) :
    aliasOf.search " AS ".toList best text = best := by
  induction text with
  | nil => rfl
  | cons c rest ih =>
    have here : ¬ " AS ".toList.isPrefixOf (c :: rest) = true := fun begins =>
      none_ (List.isPrefixOf_iff_prefix.mp begins).isInfix
    rw [aliasOf.search, if_neg here]
    exact ih fun later => none_ (later.trans (List.suffix_cons c rest).isInfix)

theorem search_append (front rest : List Char) (best : Option (List Char)) :
    ∃ found, aliasOf.search " AS ".toList best (front ++ rest) = aliasOf.search " AS ".toList found rest := by
  induction front generalizing best with
  | nil => exact ⟨best, rfl⟩
  | cons c front ih => exact ih _

/-- The last name that is given is found, whatever stands before it. -/
theorem aliasOf_append {front name : String} (plain : ¬ " AS ".toList <:+: ' ' :: name.toList) :
    aliasOf (front ++ " AS " ++ name) = .ok name := by
  obtain ⟨found, whole⟩ := search_append front.toList (" AS ".toList ++ name.toList) none
  have last : aliasOf.search " AS ".toList found (" AS ".toList ++ name.toList) = some name.toList :=
    search_of_unnamed plain (some name.toList)
  unfold aliasOf
  rw [String.toList_append, String.toList_append, List.append_assoc]
  dsimp only
  rw [whole, last]
  simp

/-- The names of the counts are those of their relations. -/
theorem aliases_withIds (m : Model) (ids : List Value) {counts : List (Value × Fragment)}
    (plain : ∀ c ∈ counts, ¬ " AS ".toList <:+: ' ' :: (Build.countName c.1).toList) :
    ((m.withIds (m.identifiers.counting counts) ids).select.columns.drop 1).mapM (fun c => aliasOf c.shown) =
      .ok (counts.map fun c => Build.countName c.1) := by
  change (counts.map fun c => Value.text (Build.countColumn c.1 c.2)).mapM (fun c => aliasOf c.shown) = _
  rw [List.mapM_map]
  induction counts with
  | nil => rfl
  | cons c rest ih =>
    have own : aliasOf (Build.countColumn c.1 c.2) = .ok (Build.countName c.1) := by
      have column : Build.countColumn c.1 c.2 = "(" ++ c.2.text ++ ")" ++ " AS " ++ Build.countName c.1 := by
        simp only [Build.countColumn, String.append_assoc]
        rfl
      rw [column]
      exact aliasOf_append (plain c (.head _))
    have others := ih fun d there => plain d (.tail _ there)
    rw [List.mapM_cons, others]
    change (aliasOf (Build.countColumn c.1 c.2) >>= fun _ => _) = _
    rw [own]
    rfl

end Deed

end Relata
