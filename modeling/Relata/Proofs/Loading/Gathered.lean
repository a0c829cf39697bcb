import Mathlib.Data.List.Dedup
import Relata.Loading.Fetch
import Relata.Proofs.Query.Built
import Relata.Proofs.Query.Pivoted
import Relata.Proofs.Store.Hydrated
import Relata.Proofs.Store.Tables

/-!
What a row gathers under the alias of a pivot table. A column is gathered if its name begins with the
alias in force when the row is read, and that name was written with the alias in force when the
column was asked for.

Main statement: whatever calls name the alias and ask for columns, every row gathers exactly these
columns under the alias if and only if each of them was asked for under it; a column whose name tells
another alias stays where it is, under that name.
-/

namespace Relata

namespace Row

theorem toList_marked (label name : String) :
    (label ++ "__" ++ name).toList = (label ++ "__").toList ++ name.toList := String.toList_append

/-- The columns of a row that go under the alias, each without the alias before its name. -/
def under (label : String) (row : Row) : List (Value × Value) :=
  (row.filter fun e => (label ++ "__").toList.isPrefixOf e.1.toList).map fun e =>
    (.text (String.ofList (e.1.toList.drop (label ++ "__").toList.length)), e.2)

/-- The columns of a row that stay beside it. -/
def beside (label : String) (row : Row) : List (Value × Value) :=
  (row.filter fun e => !(label ++ "__").toList.isPrefixOf e.1.toList).map fun e => (.text e.1, e.2)

theorem mem_under {label : String} {row : Row} {k v : Value} :
    (k, v) ∈ under label row ↔ ∃ name, k = .text name ∧ (label ++ "__" ++ name, v) ∈ row := by
  simp only [under, List.mem_map, List.mem_filter, List.isPrefixOf_iff_prefix]
  constructor
  · rintro ⟨⟨whole, v⟩, ⟨there, name, split⟩, same⟩
    obtain ⟨rfl, rfl⟩ := Prod.mk.inj same
    refine ⟨String.ofList name, ?_, ?_⟩
    · rw [← split, List.drop_left]
    · have spelled : label ++ "__" ++ String.ofList name = whole :=
        String.toList_inj.mp (by rw [String.toList_append, String.toList_ofList, split])
      rwa [spelled]
  · rintro ⟨name, rfl, there⟩
    refine ⟨_, ⟨there, name.toList, (toList_marked label name).symm⟩, ?_⟩
    dsimp only
    rw [toList_marked, List.drop_left, String.ofList_toList]

theorem mem_beside {label : String} {row : Row} {k v : Value} :
    (k, v) ∈ beside label row ↔
      ∃ name, k = .text name ∧ (name, v) ∈ row ∧ ¬(label ++ "__").toList <+: name.toList := by
  simp only [beside, List.mem_map, List.mem_filter, Bool.not_eq_true', ← Bool.not_eq_true,
    List.isPrefixOf_iff_prefix]
  constructor
  · rintro ⟨⟨name, v⟩, there, same⟩
    obtain ⟨rfl, rfl⟩ := Prod.mk.inj same
    exact ⟨name, rfl, there⟩
  · rintro ⟨name, rfl, there⟩
    exact ⟨_, there, rfl⟩

end Row

theorem Query.gatherPivot_eq {q : Query} {table : String} {s : PivotState} (row : Row)
    (pivot : q.select.pivot = some (s.pivot table)) (asked : s.cells ≠ []) :
    q.gatherPivot row = .ok (if Row.under s.label row = [] then Row.beside s.label row
      else Value.put (Row.beside s.label row) (.text s.label) (.dict (Row.under s.label row))) := by
  have columns : (s.pivot table).columns.isEmpty = false := by
    simpa [PivotState.pivot] using asked
  have key : (Value.text s.label).isKey = true := rfl
  unfold gatherPivot
  rw [pivot]
  dsimp only
  rw [columns]
  rw [if_neg Bool.false_ne_true]
  change (if (Row.under s.label row).isEmpty then Except.ok (Row.beside s.label row)
    else if !(Value.text s.label).isKey then Except.error Error.badType
    else .ok (Value.put (Row.beside s.label row) (.text s.label) (.dict (Row.under s.label row)))) = _
  rw [key]
  cases Row.under s.label row <;> rfl

namespace PivotState

/-- The row has every column asked for, under the name that the statement gives it, and no other
column whose name could be taken for one of them. -/
structure Answered (s : PivotState) (row : Row) : Prop where
  once : (row.map (·.1)).Nodup
  own : ∀ c ∈ s.cells, c.name ∈ row.map (·.1)
  others : ∀ name ∈ row.map (·.1), (s.label ++ "__").toList <+: name.toList →
    ∃ c ∈ s.cells, c.name = name

/-- What stands under the alias is exactly what was asked for, and none of it is left beside it. -/
structure Gathered (s : PivotState) (row : Row) (made : List (Value × Value)) : Prop where
  under : ∃ d, Value.lookup? (.text s.label) made = some (.dict d) ∧
    ∀ k v, (k, v) ∈ d ↔ ∃ c ∈ s.cells, k = .text c.column ∧ (c.name, v) ∈ row
  beside : ∀ c ∈ s.cells, Value.lookup? (.text c.name) made = none

variable {s : PivotState} {row : Row} {q : Query} {table : String}

theorem Answered.mem_under (h : s.Answered row) (same : ∀ c ∈ s.cells, c.label = s.label)
    (k v : Value) : (k, v) ∈ Row.under s.label row ↔
      ∃ c ∈ s.cells, k = .text c.column ∧ (c.name, v) ∈ row := by
  rw [Row.mem_under]
  constructor
  · rintro ⟨name, rfl, there⟩
    have marked : (s.label ++ "__").toList <+: (s.label ++ "__" ++ name).toList := by
      rw [Row.toList_marked]
      exact List.prefix_append _ _
    obtain ⟨c, own, named⟩ := h.others _ (List.mem_map_of_mem there) marked
    have column : c.column = name := by
      have chars := congrArg String.toList named
      rw [PivotCell.name, same c own, Row.toList_marked] at chars
      exact String.toList_inj.mp (List.append_cancel_left (chars.trans (Row.toList_marked ..)))
    exact ⟨c, own, by rw [column], by rwa [named]⟩
  · rintro ⟨c, own, rfl, there⟩
    rw [PivotCell.name, same c own] at there
    exact ⟨c.column, rfl, there⟩

theorem under_ne_nil {c : PivotCell} (h : s.Answered row) (own : c ∈ s.cells)
    (same : c.label = s.label) : Row.under s.label row ≠ [] := by
  obtain ⟨⟨name, v⟩, there, named⟩ := List.mem_map.mp (h.own c own)
  have gathered : (Value.text c.column, v) ∈ Row.under s.label row := by
    refine Row.mem_under.mpr ⟨c.column, rfl, ?_⟩
    rw [← same]
    have : name = c.name := named
    rwa [← PivotCell.name, ← this]
  exact List.ne_nil_of_mem gathered

/-- Columns that were all asked for under the alias in force are gathered under it. -/
theorem gathered_of_same (pivot : q.select.pivot = some (s.pivot table)) (asked : s.cells ≠ [])
    (same : ∀ c ∈ s.cells, c.label = s.label) (h : s.Answered row) :
    ∃ made, q.gatherPivot row = .ok made ∧ s.Gathered row made := by
  obtain ⟨c, own⟩ := List.exists_mem_of_ne_nil _ asked
  have some_ := under_ne_nil h own (same c own)
  refine ⟨_, Query.gatherPivot_eq row pivot asked, ?_⟩
  rw [if_neg some_]
  constructor
  · exact ⟨_, by rw [Tables.lookup?_put_text, if_pos rfl], h.mem_under same⟩
  · intro c own
    have apart : c.name ≠ s.label := same c own ▸ c.name_ne_label
    rw [Tables.lookup?_put_text, if_neg apart, Matches.lookup?_eq_none_iff]
    rintro ⟨k, v⟩ there
    obtain ⟨name, rfl, -, plain⟩ := Row.mem_beside.mp there
    refine Bool.eq_false_iff.mpr fun equal => plain ?_
    rw [← Value.same_text_iff.mp equal, PivotCell.name, same c own, Row.toList_marked]
    exact List.prefix_append _ _

/-- A row that answers every column by its name tells the columns apart. -/
theorem same_of_gathered (pivot : q.select.pivot = some (s.pivot table)) (asked : s.cells ≠ [])
    (h : ∀ row, s.Answered row → ∃ made, q.gatherPivot row = .ok made ∧ s.Gathered row made) :
    ∀ c ∈ s.cells, c.label = s.label := by
  intro c own
  -- Every name answers itself.
  let row : Row := (s.cells.map (·.name)).dedup.map fun name => (name, .text name)
  have names : row.map (·.1) = (s.cells.map (·.name)).dedup := by
    rw [List.map_map]
    exact List.map_id _
  have answered : s.Answered row := by
    refine ⟨by rw [names]; exact List.nodup_dedup _, fun c own => ?_, fun name there _ => ?_⟩
    · rw [names]
      exact List.mem_dedup.mpr (List.mem_map_of_mem own)
    · rw [names] at there
      exact List.mem_map.mp (List.mem_dedup.mp there)
  have itself {name : String} {v : Value} (there : (name, v) ∈ row) : v = .text name := by
    obtain ⟨_, -, same⟩ := List.mem_map.mp there
    obtain ⟨rfl, rfl⟩ := Prod.mk.inj same
    rfl
  obtain ⟨made, run, gathered⟩ := h row answered
  obtain ⟨d, found, holds⟩ := gathered.under
  rw [Query.gatherPivot_eq row pivot asked] at run
  obtain rfl := Except.ok.inj run
  have there : (c.name, .text c.name) ∈ row :=
    List.mem_map_of_mem (List.mem_dedup.mpr (List.mem_map_of_mem own))
  have kept := (holds _ _).mpr ⟨c, own, rfl, there⟩
  split at found
  · obtain ⟨⟨k, v⟩, stays, same⟩ := Value.mem_of_lookup? found
    obtain ⟨name, rfl, there, -⟩ := Row.mem_beside.mp stays
    cases (itself there).symm.trans same
  · rw [Tables.lookup?_put_text, if_pos rfl] at found
    cases found
    obtain ⟨name, same, there⟩ := Row.mem_under.mp kept
    cases same
    have := itself there
    exact PivotCell.label_of_name (by simpa using this)

/-- A column whose name does not begin with the alias stays where it is. -/
theorem mem_of_other {c : PivotCell} {made : List (Value × Value)} {v : Value}
    (pivot : q.select.pivot = some (s.pivot table)) (own : c ∈ s.cells)
    (other : ¬(s.label ++ "__").toList <+: c.name.toList) (apart : c.name ≠ s.label)
    (gathered : q.gatherPivot row = .ok made) (there : (c.name, v) ∈ row) :
    (.text c.name, v) ∈ made := by
  rw [Query.gatherPivot_eq row pivot (List.ne_nil_of_mem own)] at gathered
  obtain rfl := Except.ok.inj gathered
  have stays : (Value.text c.name, v) ∈ Row.beside s.label row :=
    Row.mem_beside.mpr ⟨c.name, rfl, there, other⟩
  have unlike : ¬(Value.text s.label).same (.text c.name) = true := fun same =>
    apart (Value.same_text_iff.mp same).symm
  split
  · exact stays
  · unfold Value.put
    split
    · exact List.mem_map.mpr ⟨_, stays, if_neg unlike⟩
    · exact List.mem_append_left _ stays

/-- An object made of a row has what was asked for under the alias, and none of it beside. -/
structure Held (s : PivotState) (row : Row) (e : Entity) : Prop where
  under : ∃ d, e.column? s.label = some (.dict d) ∧
    ∀ k v, (k, v) ∈ d ↔ ∃ c ∈ s.cells, k = .text c.column ∧ (c.name, v) ∈ row
  beside : ∀ c ∈ s.cells, e.extra.lookup c.name = none

theorem held_of_same (pivot : q.select.pivot = some (s.pivot table)) (asked : s.cells ≠ [])
    (same : ∀ c ∈ s.cells, c.label = s.label) (h : s.Answered row) {l : Lookup} {e : Entity}
    (becomes : q.entity l row = .ok e) : s.Held row e := by
  obtain ⟨made, gathered, ⟨d, found, holds⟩, none_⟩ := gathered_of_same pivot asked same h
  unfold Query.entity at becomes
  split at becomes
  · rw [gathered] at becomes
    exact ⟨⟨d, Model.column?_of_hydrate becomes found, holds⟩,
      fun c own => Model.lookup_extra_of_hydrate becomes (none_ c own)⟩
  · cases becomes

end PivotState

/-- The query for the rows of a relation over a pivot table selects what the relation asks for. Calls
that name the alias or ask for more change nothing but the alias and the columns selected. Where
anything is asked for, all rows gather exactly that under the alias if and only if all of it was asked
for under that alias, and then so do the objects made of them; a column whose name begins with
another alias stays where it is. -/
theorem pivot_columns_gather_iff (env : Env) :
    (∀ d parent keys columns tagKeys q, d.kind = .belongsToMany →
      (∀ q answer after, env.chain d.constraints q = .ok answer after →
        after.select.pivot = q.select.pivot ∧ after.select.columns = q.select.columns) →
      env.relationQuery d parent keys columns tagKeys = .ok q →
      q.select.Pivoted (Descriptor.written d.table) d.pivotState) ∧
    ∀ q table s, q.select.Pivoted table s → ∀ calls : List PivotCall, ∃ t added after,
      t = calls.foldl PivotState.after s ∧ t.cells = s.cells ++ added ∧
      env.chain (calls.map PivotCall.call) q = .ok .self after ∧
      after = q.selecting table t added ∧ after.select.Pivoted table t ∧
      (t.cells ≠ [] → ((∀ row, t.Answered row → ∃ made, after.gatherPivot row = .ok made ∧
        t.Gathered row made) ↔ ∀ c ∈ t.cells, c.label = t.label)) ∧
      (t.cells ≠ [] → (∀ c ∈ t.cells, c.label = t.label) → ∀ row, t.Answered row → ∀ l e,
        after.entity l row = .ok e → t.Held row e) ∧
      ∀ c ∈ t.cells, ¬(t.label ++ "__").toList <+: c.name.toList → c.name ≠ t.label →
        ∀ row made v, after.gatherPivot row = .ok made → (c.name, v) ∈ row →
          (.text c.name, v) ∈ made := by
  refine ⟨fun d parent keys columns tagKeys q kind recorded built =>
    Env.pivoted_of_relationQuery kind recorded built, fun q table s h calls => ?_⟩
  obtain ⟨added, more, run⟩ := Build.chain_eq_ok env h.pivot calls
  have pivoted := h.more more
  refine ⟨_, added, _, rfl, more, run, rfl, pivoted, fun asked => ⟨?_, ?_⟩, ?_, ?_⟩
  · exact PivotState.same_of_gathered pivoted.pivot asked
  · exact fun same row answered => PivotState.gathered_of_same pivoted.pivot asked same answered
  · exact fun asked same row answered l e becomes =>
      PivotState.held_of_same pivoted.pivot asked same answered becomes
  · exact fun c own other apart row made v gathered there =>
      PivotState.mem_of_other pivoted.pivot own other apart gathered there

/-- Posts that a post leads to, over a table that tells how much each of them weighs. -/
def linkedPosts : Descriptor :=
  { (default : Descriptor) with
    kind := .belongsToMany
    target := .model 0
    table := some "links"
    foreignPivotKey := some "from_id"
    relatedPivotKey := some "to_id"
    relatedKey := some "id"
    pivotColumns := ["weight"]
    pivotAlias := "pivot" }

/-- The weight as it was asked for, under an alias that was named afterwards. -/
def renamedState : PivotState := ⟨"link", [⟨"pivot", "weight"⟩]⟩

/-- The weight was asked for before the alias was named anew: the statement and the row have it under
the old name, and nothing is gathered under the new one. -/
theorem late_alias_gathers_nothing :
    ∃ q after, plainEnv.relationQuery linkedPosts plainPost [.int 1] .null false = .ok q ∧
      plainEnv.chain [PivotCall.call (.label "link")] q = .ok .self after ∧
      after.select.pivot = some (renamedState.pivot "links") ∧
      after.select.columns = [.text "posts.*", .text "links.weight AS pivot__weight"] ∧
      ¬∀ row, renamedState.Answered row →
        ∃ made, after.gatherPivot row = .ok made ∧ renamedState.Gathered row made := by
  obtain ⟨related, calls⟩ := pivot_columns_gather_iff plainEnv
  obtain ⟨q, built⟩ : ∃ q,
    plainEnv.relationQuery linkedPosts plainPost [.int 1] .null false = .ok q := ⟨_, rfl⟩
  have recorded : ∀ q answer after, plainEnv.chain linkedPosts.constraints q = .ok answer after →
      after.select.pivot = q.select.pivot ∧ after.select.columns = q.select.columns := by
    intro q answer after run
    cases run
    exact ⟨rfl, rfl⟩
  have pivoted := related linkedPosts plainPost [.int 1] .null false q rfl recorded built
  obtain ⟨_, added, after, rfl, more, run, rfl, -, iff, -, -⟩ :=
    calls q _ _ pivoted [.label "link"]
  have nothing : added = [] := List.append_cancel_left (more.symm.trans (List.append_nil _).symm)
  subst nothing
  have state : [PivotCall.label "link"].foldl PivotState.after linkedPosts.pivotState =
      renamedState := rfl
  rw [state] at run iff
  refine ⟨q, _, built, run, rfl, ?_, fun all => ?_⟩
  · cases built
    rfl
  · have same := (iff (List.cons_ne_nil _ _)).mp all ⟨"pivot", "weight"⟩ (.head _)
    exact absurd same (by decide)

end Relata
