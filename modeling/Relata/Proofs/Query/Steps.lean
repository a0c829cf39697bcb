import Relata.Proofs.Query.Steady

/-!
What a builder step keeps. `Keeps I step P` says of a step that, if it is started on a query with
`I` and ends well, it leaves a query with `I` and answers a result with `P`. Nothing is said of a
step that fails. There is a rule for each way in which steps are put together, so that the claim
about a step is read off its text.
-/

namespace Relata.Build

/-- What ends well has ended well in its first step and in the rest. -/
theorem ok_of_bind {α β : Type} {x : Build α} {f : α → Build β} {q after : Query} {b : β}
    (h : (x >>= f) q = .ok b after) :
    ∃ a between, x q = .ok a between ∧ f a between = .ok b after := by
  change EStateM.bind x f q = .ok b after at h
  unfold EStateM.bind at h
  split at h
  · rename_i a between hrun
    exact ⟨a, between, hrun, h⟩
  · cases h

/-- A step goes on as what follows its first part. -/
theorem bind_eq_of_ok {α β : Type} {x : Build α} {f : α → Build β} {q between : Query} {a : α}
    {r : EStateM.Result Error Query β} (first : x q = .ok a between) (rest : f a between = r) :
    (x >>= f) q = r := by
  change EStateM.bind x f q = _
  rwa [EStateM.bind, first]

theorem bind_eq_error {α β : Type} {x : Build α} {q after : Query} {e : Error}
    (failed : x q = .error e after) (f : α → Build β) : (x >>= f) q = .error e after := by
  change EStateM.bind x f q = _
  rw [EStateM.bind, failed]

theorem bind_eq_ok {α β : Type} {x : Build α} {f : α → Build β} {q between after : Query} {a : α}
    {b : β} (first : x q = .ok a between) (second : f a between = .ok b after) :
    (x >>= f) q = .ok b after :=
  bind_eq_of_ok first second

theorem model_eq_ok {env : Env} {m : Model} {q : Query}
    (h : env.catalog.model? q.select.source.model = some m) : model env q = .ok m q := by
  have asked : (get : Build Query) q = .ok q q := rfl
  refine bind_eq_ok asked ?_
  rw [h]
  rfl

/-- Texts have no holes to be filled. -/
theorem settleItems_texts (env : Env) (inner : Caller) (names : List String) (q : Query) :
    settleItems env inner (names.map .text) q = .ok (names.map .text) q := by
  induction names with
  | nil => rfl
  | cons name rest ih => exact bind_eq_ok rfl (bind_eq_ok ih rfl)

/-- Names that are all given are the names, collections among them as lists. -/
theorem givenNames_map_some (env : Env) (names : List Value) :
    givenNames env (names.map some) = names.map env.listed := by
  change ((names.map some).filterMap id).map env.listed = _
  rw [List.filterMap_map]
  exact congrArg (List.map env.listed) List.filterMap_some

theorem ofExcept_eq_ok {α : Type} {x : Except Error α} {a : α} (h : x = .ok a) (q : Query) :
    ofExcept x q = .ok a q := by
  rw [h]
  rfl

theorem ok_of_ofExcept {α : Type} {x : Except Error α} {q after : Query} {a : α}
    (h : ofExcept x q = .ok a after) : x = .ok a ∧ q = after := by
  cases x with
  | ok b =>
    cases h
    exact ⟨rfl, rfl⟩
  | error e => cases h

/-- What is done to another query leaves this one as it is. -/
theorem ok_of_on {α : Type} {other q after end_ : Query} {step : Build α} {a : α}
    (h : on other step q = .ok (a, end_) after) : step other = .ok a end_ ∧ q = after := by
  unfold on EStateM.run at h
  split at h
  · rename_i run
    cases h
    exact ⟨run, rfl⟩
  · cases h

theorem on_eq_ok {α : Type} {other after : Query} {step : Build α} {a : α}
    (h : step other = .ok a after) (q : Query) : on other step q = .ok (a, after) q := by
  rw [on, EStateM.run, h]

theorem on_eq_error {α : Type} {other after : Query} {step : Build α} {e : Error}
    (h : step other = .error e after) (q : Query) : on other step q = .error e q := by
  rw [on, EStateM.run, h]

theorem ok_discard {α : Type} {x : Build α} {q after : Query} {a : α}
    (h : x q = .ok a after) : (discard x) q = .ok () after := by
  change EStateM.map _ x q = _
  rw [EStateM.map, h]

theorem error_discard {α : Type} {x : Build α} {q after : Query} {e : Error}
    (h : x q = .error e after) : (discard x) q = .error e after := by
  change EStateM.map _ x q = _
  rw [EStateM.map, h]

/-- A query that a step makes of another is what the step leaves. -/
theorem ok_of_finish {α : Type} {q after : Query} {step : Build α}
    (h : finish q step = .ok after) : ∃ a, step q = .ok a after := by
  unfold finish EStateM.run at h
  split at h
  · rename_i a end_ run
    obtain rfl := Except.ok.inj h
    exact ⟨a, run⟩
  · cases h

theorem finish_eq_ok {α : Type} {q after : Query} {step : Build α} {a : α}
    (h : step q = .ok a after) : finish q step = .ok after := by
  unfold finish EStateM.run
  rw [h]

theorem finish_eq_error {α : Type} {q after : Query} {step : Build α} {e : Error}
    (h : step q = .error e after) : finish q step = .error e := by
  rw [finish, EStateM.run, h]

/-- A step that ends well leaves a query with `I` and answers a result with `P`. -/
def Keeps {α : Type} (I : Query → Prop) (step : Build α) (P : α → Prop) : Prop :=
  ∀ q, I q → ∀ a after, step q = .ok a after → I after ∧ P a

/-- A result that the step can answer. -/
def Answers {α : Type} (step : Build α) (a : α) : Prop := ∃ q after, step q = .ok a after

namespace Keeps

variable {α β γ : Type} {I : Query → Prop} {P : α → Prop} {R : β → Prop}

/-- The result is one that the step can answer. -/
theorem answers {step : Build α} (h : Keeps I step P) :
    Keeps I step fun a => P a ∧ Answers step a := by
  intro q hq a after run
  obtain ⟨kept, ha⟩ := h q hq a after run
  exact ⟨kept, ha, q, after, run⟩

theorem pure {a : α} (h : P a) : Keeps I (Pure.pure a) P := by
  intro q hq b after run
  cases run
  exact ⟨hq, h⟩

theorem throw {e : Error} : Keeps I (MonadExcept.throw e) P := by
  intro q hq a after run
  cases run

theorem bind {x : Build α} {f : α → Build β} (hx : Keeps I x P)
    (hf : ∀ a, P a → Keeps I (f a) R) : Keeps I (x >>= f) R := by
  intro q hq b after run
  obtain ⟨a, between, hrun, run⟩ := ok_of_bind run
  obtain ⟨kept, ha⟩ := hx q hq a between hrun
  exact hf a ha between kept b after run

/-- What follows a failure is not reached. -/
theorem failed {e : Error} {f : α → Build β} : Keeps I (MonadExcept.throw e >>= f) R := by
  intro q hq b after run
  cases run

/-- One step after another. -/
theorem seq {x : Build α} {y : Build β} (hx : Keeps I x P) (hy : Keeps I y R) :
    Keeps I (do let _ ← x; y) R :=
  hx.bind fun _ _ => hy

theorem map {f : α → β} {x : Build α} (hx : Keeps I x P) (hf : ∀ a, P a → R (f a)) :
    Keeps I (f <$> x) R := by
  rw [map_eq_pure_bind]
  exact hx.bind fun a ha => pure (hf a ha)

theorem discard {x : Build α} (hx : Keeps I x P) :
    Keeps I (Functor.discard x) fun _ => True :=
  hx.map fun _ _ => trivial

theorem get : Keeps I MonadState.get I := by
  intro q hq a after run
  cases run
  exact ⟨hq, hq⟩

theorem change {f : Query → Query} (h : ∀ q, I q → I (f q)) :
    Keeps I (modify f : Build Unit) fun _ => True := by
  intro q hq a after run
  cases run
  exact ⟨h q hq, trivial⟩

theorem changeSelect {f : Sql.Select → Sql.Select}
    (h : ∀ q, I q → I { q with select := f q.select }) :
    Keeps I (modifySelect f) fun _ => True :=
  change h

theorem changeLoads {f : LoadRequest → LoadRequest}
    (h : ∀ q, I q → I { q with loads := f q.loads }) :
    Keeps I (modifyLoads f) fun _ => True :=
  change h

theorem ofExcept {x : Except Error α} (h : ∀ a, x = .ok a → P a) :
    Keeps I (Build.ofExcept x) P := by
  cases x with
  | ok a => exact pure (h a rfl)
  | error e => exact throw

/-- A step run on another query leaves this one alone. -/
theorem on {J : Query → Prop} {other : Query} {step : Build α} (start : J other)
    (h : Keeps J step P) : Keeps I (Build.on other step) fun r => P r.1 ∧ J r.2 := by
  intro q hq r after run
  unfold Build.on at run
  split at run
  · rename_i a end_ hrun
    obtain ⟨kept, ha⟩ := h other start a end_ hrun
    cases run
    exact ⟨hq, ha, kept⟩
  · cases run

theorem mapM {f : α → Build β} {items : List α} (h : ∀ x ∈ items, Keeps I (f x) R) :
    Keeps I (items.mapM f) fun results => ∀ b ∈ results, R b := by
  induction items with
  | nil => exact pure (by simp)
  | cons x rest ih =>
    rw [List.mapM_cons]
    refine bind (h x (by simp)) fun b hb => ?_
    refine bind (ih fun y hy => h y (by simp [hy])) fun bs hbs => pure ?_
    intro c hc
    obtain rfl | hc := List.mem_cons.mp hc
    · exact hb
    · exact hbs c hc

theorem forM {f : α → Build PUnit} {items : List α}
    (h : ∀ x ∈ items, Keeps I (f x) fun _ => True) : Keeps I (items.forM f) fun _ => True := by
  induction items with
  | nil => exact pure trivial
  | cons x rest ih => exact (h x (by simp)).seq (ih fun y hy => h y (by simp [hy]))

theorem foldlM {f : β → α → Build β} {items : List α} {start : β} (hs : R start)
    (h : ∀ b, R b → ∀ x ∈ items, Keeps I (f b x) R) : Keeps I (items.foldlM f start) R := by
  induction items generalizing start with
  | nil => exact pure hs
  | cons x rest ih =>
    rw [List.foldlM_cons]
    exact bind (h start hs x (by simp)) fun b hb =>
      ih hb fun c hc y hy => h c hc y (by simp [hy])

theorem filterM {f : α → Build Bool} {items : List α}
    (h : ∀ x ∈ items, Keeps I (f x) fun _ => True) : Keeps I (items.filterM f) fun _ => True := by
  have kept : ∀ (rest found : List α), (∀ x ∈ rest, Keeps I (f x) fun _ => True) →
      Keeps I (rest.filterAuxM f found) fun _ => True := by
    intro rest
    induction rest with
    | nil => exact fun _ _ => pure trivial
    | cons x rest ih =>
      intro found h
      refine bind (h x (by simp)) fun b _ => ?_
      exact ih _ fun y hy => h y (by simp [hy])
  exact bind (kept items [] h) fun _ _ => pure trivial

end Keeps

theorem Steady.same {α : Type} {step : Build α} (h : Steady step) {q after : Query} {a : α}
    (run : step q = .ok a after) : after = q := by
  obtain ⟨result, rfl⟩ := h
  exact (ok_of_ofExcept run).2.symm

theorem Steady.keeps {α : Type} {I : Query → Prop} {step : Build α} (h : Steady step) :
    Keeps I step fun _ => True := by
  obtain ⟨r, rfl⟩ := h
  exact .ofExcept fun _ _ => trivial

end Relata.Build

namespace Relata

/-- The subselect for the extreme value of a column over the rows of a query. -/
def Sql.Select.extremeOf (q : Sql.Select) (extremum : Extremum) (column : Value) : Sql.Select :=
  { q with
    columns := [.text s!"{extremum.function}({column.shown}) AS aggregate_value"]
    bindings := []
    orders := []
    limit := .null
    offset := .null }

namespace Build

/-- The extreme that a word asks for. -/
def extremumOf : Value → Except Error Extremum
  | .text s => match Text.lowercase s with
    | "max" => .ok .max
    | "min" => .ok .min
    | word => .error (.badAggregate word)
  | _ => .error .noAttribute

/-- Keeps the rows in which a column has its extreme value over the rows of the query. -/
def keepExtreme (column : Value) (extremum : Extremum) : Build Unit := do
  let q ← get
  let body ← ofExcept (q.select.extremeOf extremum column).body
  addFragment .and (.plain s!"{column.shown} = (" ++ body ++ .plain ")") "where_raw"
  orderBy column (.text (if extremum = .max then "desc" else "asc"))
  limit (.int 1)

/-- Keeping the row with an extreme value: the word is read first, and then the query is changed. -/
theorem ofMany_eq (column aggregate : Value) :
    ofMany column aggregate = ofExcept (extremumOf aggregate) >>= keepExtreme column := by
  cases aggregate with
  | text s =>
    unfold ofMany extremumOf
    by_cases max : Text.lowercase s = "max"
    · simp only [max]
      rfl
    by_cases min : Text.lowercase s = "min"
    · simp only [min]
      rfl
    · simp only [pure_bind]
      rfl
  | _ => rfl

theorem word_of_extremumOf {aggregate : Value} {extremum : Extremum}
    (asked : extremumOf aggregate = .ok extremum) :
    aggregate.asText?.map Text.lowercase = some extremum.word := by
  unfold extremumOf at asked
  split at asked
  · next s =>
    split at asked
    · next word =>
      cases asked
      exact congrArg some word
    · next word =>
      cases asked
      exact congrArg some word
    · cases asked
  · cases asked

end Build

end Relata
