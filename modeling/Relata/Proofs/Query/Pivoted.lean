import Relata.Proofs.Query.Linked

/-!
Columns asked for of a pivot table. The name that a statement gives such a column holds the alias
that was in force when the column was asked for, and stays as it is when the alias changes. Calls
that name the alias or ask for columns change nothing else, and the query for the rows of a relation
begins with the alias and the columns of the relation.
-/

namespace Relata

open Sql (Select)

/-- A column asked for of a pivot table, with the alias in force at that time. -/
structure PivotCell where
  label : String
  column : String

namespace PivotCell

/-- The name that the statement gives the column. -/
def name (c : PivotCell) : String := c.label ++ "__" ++ c.column

def expression (table : String) (c : PivotCell) : Value :=
  .text (table ++ "." ++ c.column ++ " AS " ++ c.name)

/-- A column has the name that another alias gives it only if the aliases are the same. -/
theorem label_of_name {c : PivotCell} {label : String} (h : c.name = label ++ "__" ++ c.column) :
    c.label = label := by
  have chars := congrArg String.toList h
  simp only [name, String.toList_append, List.append_cancel_right_eq] at chars
  exact String.toList_inj.mp chars

theorem name_ne_label (c : PivotCell) : c.name ≠ c.label := by
  intro same
  have lengths := congrArg String.length same
  rw [name, String.length_append, String.length_append] at lengths
  have mark : "__".length = 2 := rfl
  omega

end PivotCell

/-- A call that names the alias, or one that asks for columns. -/
inductive PivotCall where
  | label (name : String)
  | columns (names : List String)

def PivotCall.call : PivotCall → Call
  | .label name => .mk "as_" [.text name] []
  | .columns names => .mk "with_pivot" (names.map .text) []

/-- The alias in force, and the columns asked for so far. -/
structure PivotState where
  label : String
  cells : List PivotCell

namespace PivotState

/-- A column is asked for once, and one without a name never. -/
def add (s : PivotState) (name : String) : PivotState :=
  if name = "" ∨ name ∈ s.cells.map (·.column) then s
  else { s with cells := s.cells ++ [⟨s.label, name⟩] }

def after (s : PivotState) : PivotCall → PivotState
  | .label name => { s with label := name }
  | .columns names => names.foldl add s

def pivot (s : PivotState) (table : String) : Sql.Pivot :=
  ⟨table, .text s.label, s.cells.map fun c => .text c.column⟩

end PivotState

/-- The query with more columns of its pivot table, which is in the state now. -/
def Query.selecting (q : Query) (table : String) (s : PivotState) (added : List PivotCell) : Query :=
  { q with
    select := { q.select with
      pivot := some (s.pivot table)
      columns := q.select.columns ++ added.map (·.expression table) } }

theorem Query.selecting_selecting (q : Query) (table : String) (s t : PivotState)
    (added more : List PivotCell) :
    (q.selecting table s added).selecting table t more = q.selecting table t (added ++ more) := by
  simp [selecting]

/-- The select joins the pivot table in the state: every column asked for is selected, each under the
alias of its time. -/
structure Sql.Select.Pivoted (select : Select) (table : String) (s : PivotState) : Prop where
  pivot : select.pivot = some (s.pivot table)
  selected : ∀ c ∈ s.cells, c.expression table ∈ select.columns

theorem Query.selecting_self {q : Query} {table : String} {s : PivotState}
    (pivot : q.select.pivot = some (s.pivot table)) : q.selecting table s [] = q := by
  cases q
  simp only [selecting, ← pivot, List.map_nil, List.append_nil]

theorem Sql.Select.Pivoted.more {q : Query} {table : String} {s t : PivotState}
    {added : List PivotCell} (h : q.select.Pivoted table s) (more : t.cells = s.cells ++ added) :
    (q.selecting table t added).select.Pivoted table t := by
  refine ⟨rfl, fun c there => ?_⟩
  rw [more] at there
  rcases List.mem_append.mp there with old | new
  · exact List.mem_append_left _ (h.selected c old)
  · exact List.mem_append_right _ (List.mem_map_of_mem new)

theorem Value.same_text_iff {s t : String} : (Value.text s).same (.text t) = true ↔ s = t :=
  beq_iff_eq

namespace Build

open Value (same_text_iff)

variable {q : Query} {table : String} {s : PivotState}

theorem any_same_cells (name : String) :
    ((s.pivot table).columns.any (Value.text name).same = true) ↔
      name ∈ s.cells.map (·.column) := by
  rw [List.any_eq_true, PivotState.pivot]
  simp only [List.mem_map]
  constructor
  · rintro ⟨_, ⟨c, there, rfl⟩, same⟩
    exact ⟨c, there, (same_text_iff.mp same).symm⟩
  · rintro ⟨c, there, rfl⟩
    exact ⟨_, ⟨c, there, rfl⟩, same_text_iff.mpr rfl⟩

theorem asked_iff (name : String) :
    ((Value.text name).truthy && !(s.pivot table).columns.any (Value.text name).same) = true ↔
      ¬(name = "" ∨ name ∈ s.cells.map (·.column)) := by
  rw [Bool.and_eq_true, Bool.not_eq_true', Bool.eq_false_iff, Ne, any_same_cells, not_or]
  simp [Value.truthy]

/-- One column is selected unless it is selected already. -/
theorem withPivot_singleton (pivot : q.select.pivot = some (s.pivot table)) (name : String) :
    ∃ added, (s.add name).cells = s.cells ++ added ∧
      withPivot [.text name] q = .ok () (q.selecting table (s.add name) added) := by
  have read : (get : Build Query) q = .ok q q := rfl
  by_cases passed : name = "" ∨ name ∈ s.cells.map (·.column)
  · have same : s.add name = s := if_pos passed
    refine ⟨[], by rw [same, List.append_nil], ?_⟩
    rw [same, Query.selecting_self pivot]
    refine bind_eq_ok (a := ()) (bind_eq_ok read ?_) rfl
    rw [pivot]
    dsimp only
    rw [if_neg (by rw [asked_iff]; exact not_not_intro passed)]
    rfl
  · have next : s.add name = { s with cells := s.cells ++ [⟨s.label, name⟩] } := if_neg passed
    refine ⟨[⟨s.label, name⟩], by rw [next], ?_⟩
    refine bind_eq_ok (a := ()) (bind_eq_ok read ?_) rfl
    rw [pivot]
    dsimp only
    rw [if_pos ((asked_iff name).mpr passed), next]
    simp [selectPivot, modifySelect, Query.selecting, PivotState.pivot, PivotCell.expression,
      PivotCell.name, Value.shown, String.append_assoc]
    rfl

theorem withPivot_cons {column : Value} {rest : List Value} {q between : Query}
    {r : EStateM.Result Error Query Unit} (first : withPivot [column] q = .ok () between)
    (run : withPivot rest between = r) : withPivot (column :: rest) q = r := by
  obtain ⟨_, _, one, last⟩ := ok_of_bind first
  cases last
  exact bind_eq_of_ok one run

/-- Columns are selected one after the other. -/
theorem withPivot_eq (pivot : q.select.pivot = some (s.pivot table)) (names : List String) :
    ∃ added, (names.foldl PivotState.add s).cells = s.cells ++ added ∧
      withPivot (names.map .text) q =
        .ok () (q.selecting table (names.foldl PivotState.add s) added) := by
  induction names generalizing q s with
  | nil =>
    refine ⟨[], (List.append_nil _).symm, ?_⟩
    rw [List.foldl_nil, Query.selecting_self pivot]
    rfl
  | cons name rest ih =>
    obtain ⟨one, selected, first⟩ := withPivot_singleton pivot name
    obtain ⟨more, those, run⟩ := ih (q := q.selecting table (s.add name) one) rfl
    refine ⟨one ++ more, by rw [List.foldl_cons, those, selected, List.append_assoc], ?_⟩
    rw [List.foldl_cons, ← Query.selecting_selecting q table (s.add name)]
    exact withPivot_cons first run

/-- A call about the pivot leaves the query with the columns that it adds. -/
theorem call_eq_ok (env : Env) (pivot : q.select.pivot = some (s.pivot table)) (c : PivotCall) :
    ∃ added, (s.after c).cells = s.cells ++ added ∧
      env.call c.call q = .ok .self (q.selecting table (s.after c) added) := by
  cases c with
  | label name =>
    refine ⟨[], (List.append_nil _).symm, ?_⟩
    have renamed : setPivotAlias (.text name) q =
        .ok () (q.selecting table (s.after (.label name)) []) := by
      have next : q.select.pivot.map (fun p => { p with label := .text name }) =
          some ((s.after (.label name)).pivot table) := by
        rw [pivot]
        rfl
      rw [Query.selecting, ← next, List.map_nil, List.append_nil]
      rfl
    exact bind_eq_ok (settleItems_texts env _ [name] q)
      (bind_eq_ok rfl (bind_eq_ok rfl (bind_eq_ok renamed rfl)))
  | columns names =>
    obtain ⟨added, more, run⟩ := withPivot_eq pivot names
    refine ⟨added, more, ?_⟩
    have given : givenNames env ((names.map Value.text).map some) = names.map .text := by
      rw [givenNames_map_some, List.map_map]
      rfl
    rw [← given] at run
    exact bind_eq_ok (settleItems_texts env _ names q)
      (bind_eq_ok rfl (bind_eq_ok rfl (bind_eq_ok run rfl)))

/-- Such calls leave everything else alone, by induction on the calls. -/
theorem chain_eq_ok (env : Env) (pivot : q.select.pivot = some (s.pivot table))
    (calls : List PivotCall) :
    ∃ added, (calls.foldl PivotState.after s).cells = s.cells ++ added ∧
      env.chain (calls.map PivotCall.call) q =
        .ok .self (q.selecting table (calls.foldl PivotState.after s) added) := by
  unfold Env.chain chain
  induction calls generalizing q s with
  | nil =>
    refine ⟨[], (List.append_nil _).symm, ?_⟩
    rw [List.foldl_nil, Query.selecting_self pivot]
    rfl
  | cons c rest ih =>
    obtain ⟨one, selected, first⟩ := call_eq_ok env pivot c
    obtain ⟨more, those, run⟩ := ih (q := q.selecting table (s.after c) one) rfl
    refine ⟨one ++ more, by rw [List.foldl_cons, those, selected, List.append_assoc], ?_⟩
    rw [List.map_cons, List.foldlM_cons, List.foldl_cons,
      ← Query.selecting_selecting q table (s.after c)]
    exact bind_eq_ok first run

end Build

/-- What a relation over a pivot table asks for. -/
def Descriptor.pivotState (d : Descriptor) : PivotState :=
  (PivotState.mk d.pivotAlias []).after (.columns d.pivotColumns)

namespace Build

variable {env : Env} {d : Descriptor} {parent related : Model} {keys : List Value} {tagKeys : Bool}
  {q after : Query} {u : Unit}

/-- No pivot table is read so far, and something is selected. -/
def Unpivoted (q : Query) : Prop := q.select.pivot = none ∧ q.select.columns ≠ []

theorem unpivoted_join {kind : Sql.JoinKind} {table first operator second : Value} :
    Keeps Unpivoted (join kind table first operator second) fun _ => True :=
  (Keeps.ofExcept (P := fun _ => True) fun _ _ => trivial).bind fun _ _ =>
    .changeSelect fun _ h => h

theorem unpivoted_keyIn {column : String} {keys : List Value} :
    Keeps Unpivoted (keyIn column keys) fun _ => True := by
  refine steady_itemsOf.keeps.bind fun _ _ => steady_checkNames.keeps.seq ?_
  unfold addCondition addTo
  exact .changeSelect fun _ h => h

theorem setPivotSource_eq {table label : String} (new : q.select.pivot = none) :
    setPivotSource (.text table) (.text label) q =
      .ok () (q.selecting table ⟨label, []⟩ []) := by
  have read : (get : Build Query) q = .ok q q := rfl
  refine bind_eq_ok read ?_
  rw [new, Query.selecting, List.map_nil, List.append_nil]
  rfl

/-- The query for the related rows selects what the relation asks for behind the columns of its own
table. -/
theorem pivoted_of_linkKeys (kind : d.kind = .belongsToMany) (new : q.select.pivot = none)
    (run : linkKeys env d parent related keys tagKeys q = .ok u after) :
    after.select.pivot = some (d.pivotState.pivot (Descriptor.written d.table)) ∧
      ∀ c ∈ d.pivotState.cells,
        c.expression (Descriptor.written d.table) ∈ after.select.columns.drop 1 := by
  unfold linkKeys at run
  dsimp only at run
  rw [kind] at run
  obtain ⟨_, selected, select, run⟩ := ok_of_bind run
  obtain ⟨_, joined, join, run⟩ := ok_of_bind run
  obtain ⟨_, keyed, key, run⟩ := ok_of_bind run
  obtain ⟨_, sourced, source, run⟩ := ok_of_bind run
  have first : Unpivoted selected := by
    cases select
    refine ⟨new, ?_⟩
    dsimp only
    split
    · exact List.cons_ne_nil _ _
    · next some_ => exact fun none_ => some_ (List.isEmpty_iff.mpr none_)
  have second := (unpivoted_join _ first _ _ join).1
  obtain ⟨none_, some_⟩ := (unpivoted_keyIn _ second _ _ key).1
  rw [setPivotSource_eq none_] at source
  obtain ⟨-, rfl⟩ := EStateM.Result.ok.inj source
  obtain ⟨added, more, asked⟩ := withPivot_eq (q := keyed.selecting _ ⟨d.pivotAlias, []⟩ []) rfl
    d.pivotColumns
  rw [asked, Query.selecting_selecting] at run
  obtain ⟨-, rfl⟩ := EStateM.Result.ok.inj run
  refine ⟨rfl, fun c own => ?_⟩
  have there : c ∈ added := by
    rw [Descriptor.pivotState, PivotState.after, more] at own
    exact own
  obtain ⟨column, rest, columns⟩ := List.exists_cons_of_ne_nil some_
  rw [Query.selecting, columns]
  exact List.mem_append_right _ (List.mem_map_of_mem there)

end Build

/-- The query for the rows of a relation over a pivot table selects what the relation asks for, where
the calls recorded on it leave alone what is selected. -/
theorem Env.pivoted_of_relationQuery {env : Env} {d : Descriptor} {parent : Model}
    {keys : List Value} {columns : Value} {tagKeys : Bool} {q : Query}
    (kind : d.kind = .belongsToMany)
    (recorded : ∀ q answer after, env.chain d.constraints q = .ok answer after →
      after.select.pivot = q.select.pivot ∧ after.select.columns = q.select.columns)
    (built : env.relationQuery d parent keys columns tagKeys = .ok q) :
    q.select.Pivoted (Descriptor.written d.table) d.pivotState := by
  unfold relationQuery at built
  dsimp only at built
  rw [kind] at built
  obtain ⟨related, -, built⟩ := ok_of_bind built
  obtain ⟨base, new, built⟩ := ok_of_bind built
  obtain ⟨_, run⟩ := Build.ok_of_finish built
  obtain ⟨_, linked, linking, run⟩ := Build.ok_of_bind run
  obtain ⟨_, chained, chain, restricting⟩ := Build.ok_of_bind run
  have none_ : base.select.pivot = none :=
    Query.Blind.query (I := fun q => q.select.pivot = none) (fun _ _ kept => kept) rfl new
  obtain ⟨pivot, selected⟩ := Build.pivoted_of_linkKeys kind none_ linking
  have alone : chained.select.pivot = linked.select.pivot ∧
      chained.select.columns = linked.select.columns := by
    cases made : env.chain d.constraints linked with
    | ok answer after =>
      rw [Build.ok_discard made] at chain
      cases chain
      exact recorded _ _ _ made
    | error e after =>
      rw [Build.error_discard made] at chain
      cases chain
  rw [← alone.1] at pivot
  rw [← alone.2] at selected
  unfold Build.restrictColumns at restricting
  split at restricting
  · obtain ⟨given, _, items, restricting⟩ := Build.ok_of_bind restricting
    obtain ⟨_, same⟩ : Build.Steady (Build.itemsOf (env.opened columns)) := Build.steady_itemsOf
    rw [same] at items
    obtain ⟨-, rfl⟩ := Build.ok_of_ofExcept items
    cases restricting
    refine ⟨pivot, fun c own => ?_⟩
    rw [kind]
    exact List.mem_append_right _ (selected c own)
  · cases restricting
    exact ⟨pivot, fun c own => List.mem_of_mem_drop (selected c own)⟩

end Relata
