import Relata.Query.Call

/-!
Steps that neither read nor change the query: they come to the same result whatever the query is.
Filling the holes of arguments is such a step, even where a draft is built for it.
-/

namespace Relata.Build

/-- The step neither reads nor changes the query. -/
def Steady {α : Type} (step : Build α) : Prop := ∃ result : Except Error α, step = ofExcept result

namespace Steady

variable {α β : Type}

theorem ofExcept {x : Except Error α} : Steady (Build.ofExcept x) := ⟨x, rfl⟩

theorem pure {a : α} : Steady (Pure.pure a) := ⟨.ok a, rfl⟩

theorem throw {e : Error} : Steady (MonadExcept.throw e : Build α) := ⟨.error e, rfl⟩

theorem bind {x : Build α} {f : α → Build β} (hx : Steady x) (hf : ∀ a, Steady (f a)) :
    Steady (x >>= f) := by
  obtain ⟨r, rfl⟩ := hx
  cases r with
  | error e => exact ⟨.error e, rfl⟩
  | ok a =>
    obtain ⟨result, h⟩ := hf a
    exact ⟨result, h⟩

theorem map {f : α → β} {x : Build α} (hx : Steady x) : Steady (f <$> x) := by
  rw [map_eq_pure_bind]
  exact hx.bind fun _ => pure

/-- What is done to another query does nothing to this one. -/
theorem on {other : Query} {step : Build α} : Steady (Build.on other step) := by
  cases h : step other with
  | ok a after =>
    refine ⟨.ok (a, after), funext fun q => ?_⟩
    simp only [Build.on, EStateM.run, h]
    rfl
  | error e after =>
    refine ⟨.error e, funext fun q => ?_⟩
    simp only [Build.on, EStateM.run, h]
    rfl

theorem mapM {f : α → Build β} {items : List α} (h : ∀ x, Steady (f x)) :
    Steady (items.mapM f) := by
  induction items with
  | nil => exact pure
  | cons x rest ih =>
    rw [List.mapM_cons]
    exact (h x).bind fun _ => ih.bind fun _ => pure

theorem forM {f : α → Build PUnit} {items : List α} (h : ∀ x, Steady (f x)) :
    Steady (items.forM f) := by
  induction items with
  | nil => exact pure
  | cons x rest ih => exact (h x).bind fun _ => ih

end Steady

variable {env : Env} {inner : Caller}

theorem steady_itemsOf {v : Value} : Steady (itemsOf v) := by
  unfold itemsOf
  split
  · exact .pure
  · exact .throw

theorem steady_checkNames {issues : List Issue} : Steady (checkNames issues) := by
  unfold checkNames
  split
  · exact .pure
  · exact .throw

theorem steady_checkKey {v : Value} : Steady (checkKey v) := by
  unfold checkKey
  split
  · exact .pure
  · exact .throw

theorem steady_bindingsOf {v : Value} : Steady (bindingsOf v) := by
  unfold bindingsOf
  split
  · exact steady_itemsOf
  · exact .pure

theorem steady_attributeOf {v : Value} {name : String} :
    Steady (attributeOf env v name) := by
  unfold attributeOf
  refine Steady.ofExcept.bind fun g => ?_
  split
  · exact .pure
  · exact .throw

theorem steady_answerOn {q : Query} {step : Build Answer} : Steady (answerOn q step) := by
  refine Steady.on.bind fun r => ?_
  split
  · exact .pure
  · exact .pure

/-- What a draft comes to changes nothing here. -/
theorem steady_buildDraft {base : Value} {calls : List Call} :
    Steady (buildDraft env inner base calls) :=
  Steady.ofExcept.bind fun _ => steady_answerOn

theorem steady_opened {v : Value} : Steady (opened env inner v) := by
  unfold opened
  split
  · refine steady_buildDraft.bind fun answer => ?_
    split
    · exact .pure
    · exact .pure
  · exact .pure

theorem steady_queryOf {v : Value} : Steady (queryOf env inner v) := by
  unfold queryOf
  split
  · split
    · exact .pure
    · exact .throw
  · refine steady_buildDraft.bind fun answer => ?_
    split
    · exact .pure
    · exact .throw
  · exact .throw
  · exact .throw

theorem steady_counted {v : Value} : Steady (counted v) := by
  unfold counted
  split
  · exact .pure
  · exact .pure
  · exact steady_itemsOf.bind fun _ => .pure

mutual

/-- Filling the holes of a value changes nothing. -/
theorem steady_settle : ∀ v : Value, Steady (settle env inner v)
  | .variable name path => by
    unfold settle
    refine Steady.ofExcept.bind fun g => ?_
    split
    · exact .pure
    · exact .throw
  | .thrown e => .throw
  | .parameter i => .throw
  | .list items => by
    unfold settle
    exact (steady_settleItems items).map
  | .tuple items => by
    unfold settle
    exact (steady_settleItems items).map
  | .dict entries => by
    unfold settle
    exact (steady_settleEntries entries).bind fun _ => .ofExcept
  | .draft base calls => by
    unfold settle
    refine steady_buildDraft.bind fun answer => ?_
    split
    · exact .pure
    · exact .pure
  | .null | .bool _ | .int _ | .float _ | .text _ | .time _ | .model _ | .object _
  | .collection _ | .query _ | .registry _ | .tagMap _ | .task _ | .relation _ _ | .failure _
  | .portrait _ | .recipe _ _ => .pure

theorem steady_settleItems : ∀ items : List Value,
    Steady (settleItems env inner items)
  | [] => .pure
  | v :: rest =>
    (steady_settle v).bind fun _ => (steady_settleItems rest).bind fun _ => .pure

theorem steady_settleEntries : ∀ entries : List (Value × Value),
    Steady (settleEntries env inner entries)
  | [] => .pure
  | (k, v) :: rest =>
    (steady_settle k).bind fun _ => (steady_settle v).bind fun _ =>
      (steady_settleEntries rest).bind fun _ => .pure

end

theorem steady_settleNamed : ∀ named : List (String × Value),
    Steady (settleNamed env inner named)
  | [] => .pure
  | (_, v) :: rest =>
    (steady_settle v).bind fun _ => (steady_settleNamed rest).bind fun _ => .pure

theorem steady_comparison {junction : Sql.Junction} {column : Value}
    {operator value : Option Value} : Steady (comparison junction column operator value) := by
  have rest : ∀ o v : Value, Steady (α := Sql.Clause)
      (if v.isNull && equalWords.contains (o.asText?.getD "") then do
        checkNames (Sql.nameIssues "column" column)
        return .leaf junction (.null false column.shown)
      else if v.isNull && unequalWords.contains (o.asText?.getD "") then do
        checkNames (Sql.nameIssues "column" column)
        return .leaf junction (.null true column.shown)
      else do
        checkNames (Sql.nameIssues "column" column ++ Sql.nameIssues "operator" o)
        return .leaf junction (.compare column.shown o.shown v)) := by
    intro o v
    split
    · exact steady_checkNames.bind fun _ => .pure
    · split
      · exact steady_checkNames.bind fun _ => .pure
      · exact steady_checkNames.bind fun _ => .pure
  cases value with
  | some v => exact rest (operator.getD .null) v
  | none => cases operator with
    | some v => exact rest (.text "=") v
    | none => exact .throw

theorem steady_targetWithTag {d : Descriptor} {parent : String} {callback found tag : Value} :
    Steady (targetWithTag env inner d parent callback found tag) := by
  unfold targetWithTag
  dsimp only
  split
  · exact .throw
  · exact Steady.ofExcept.bind fun _ => Steady.ofExcept.bind fun _ => Steady.on.bind fun _ => .pure

theorem steady_targetOfType {d : Descriptor} {parent : String} {callback type : Value} :
    Steady (targetOfType env inner d parent callback type) := by
  unfold targetOfType
  dsimp only
  split
  · exact Steady.pure.bind fun _ => Steady.ofExcept.bind fun _ => steady_targetWithTag
  · exact Steady.ofExcept.bind fun _ => Steady.ofExcept.bind fun _ => steady_targetWithTag

theorem steady_givenBindings {v : Value} : Steady (givenBindings env inner v) := by
  unfold givenBindings
  split
  · exact steady_opened
  · exact .pure

theorem steady_givenPaths {v : Value} : Steady (givenPaths env inner v) := by
  unfold givenPaths
  split
  · exact .pure
  · exact steady_opened

end Relata.Build
