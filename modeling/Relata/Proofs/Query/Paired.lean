import Relata.Proofs.Query.Steady
import Relata.Proofs.Sql.Alike

/-!
Two runs side by side. `Paired R T x y` says of two steps that, started on queries which differ in
values related by `R` alone, they fail for the same cause or both end well, with results related by
`T` and with queries that again differ in related values alone.
-/

namespace Relata

open Sql (AlikeResults Fragment Select)

/-- Queries that agree in all but the values of their selects and of their branches. -/
structure Query.Alike (R : Value → Value → Prop) (p q : Query) : Prop where
  select : p.select.Alike R q.select
  branches : List.Forall₂ (fun b c : Bool × Query => b.1 = c.1 ∧ b.2.select.Alike R c.2.select)
    p.branches q.branches
  loads : p.loads = q.loads

namespace Query

variable {R : Value → Value → Prop}

theorem Alike.same (refl : ∀ v, R v v) (q : Query) : q.Alike R q where
  select := .same refl q.select
  branches := List.forall₂_same.mpr fun b _ => ⟨rfl, .same refl b.2.select⟩
  loads := rfl

theorem Alike.statement {p q : Query} (h : p.Alike R q) : p.statement.Alike R q.statement where
  select := h.select
  branches := by
    rw [Query.statement, Query.statement, List.forall₂_map_left_iff, List.forall₂_map_right_iff]
    exact h.branches

end Query

namespace Build

variable {R : Value → Value → Prop}

/-- What two runs come to. -/
inductive Outcomes {α β : Type} (R : Value → Value → Prop) (T : α → β → Prop) :
    EStateM.Result Error Query α → EStateM.Result Error Query β → Prop where
  | ok {a : α} {b : β} {p q : Query} (h : T a b) (alike : p.Alike R q) :
    Outcomes R T (.ok a p) (.ok b q)
  | error (e : Error) {p q : Query} : Outcomes R T (.error e p) (.error e q)

def Paired {α β : Type} (R : Value → Value → Prop) (T : α → β → Prop) (x : Build α)
    (y : Build β) : Prop :=
  ∀ p q, p.Alike R q → Outcomes R T (x p) (y q)

/-- A step that runs alike on alike queries. -/
def Uniform {α : Type} (R : Value → Value → Prop) (T : α → α → Prop) (x : Build α) : Prop :=
  Paired R T x x

namespace Paired

variable {α β γ δ : Type} {T T' : α → β → Prop} {U : γ → δ → Prop}

theorem pure {a : α} {b : β} (h : T a b) : Paired R T (Pure.pure a) (Pure.pure b) :=
  fun _ _ alike => .ok h alike

theorem throw {e : Error} :
    Paired R T (MonadExcept.throw e : Build α) (MonadExcept.throw e : Build β) :=
  fun _ _ _ => .error e

theorem bind {x : Build α} {y : Build β} {f : α → Build γ} {g : β → Build δ} (h : Paired R T x y)
    (rest : ∀ a b, T a b → Paired R U (f a) (g b)) : Paired R U (x >>= f) (y >>= g) := by
  intro p q alike
  have first := h p q alike
  change Outcomes R U (EStateM.bind x f p) (EStateM.bind y g q)
  unfold EStateM.bind
  generalize x p = r at first
  generalize y q = s at first
  cases first with
  | ok h alike => exact rest _ _ h _ _ alike
  | error e => exact .error e

/-- What follows a failure is not reached. -/
theorem failed {e : Error} {f : α → Build γ} {g : β → Build δ} :
    Paired R U (MonadExcept.throw e >>= f) (MonadExcept.throw e >>= g) :=
  fun _ _ _ => .error e

theorem mono {x : Build α} {y : Build β} (h : Paired R T x y) (weaker : ∀ a b, T a b → T' a b) :
    Paired R T' x y := by
  intro p q alike
  have both := h p q alike
  generalize x p = r at both
  generalize y q = s at both
  cases both with
  | ok h alike => exact .ok (weaker _ _ h) alike
  | error e => exact .error e

theorem any {x : Build α} {y : Build β} (h : Paired R T x y) :
    Paired R (fun _ _ => True) x y :=
  h.mono fun _ _ _ => trivial

theorem seq {x : Build α} {y : Build β} {z : Build γ} {w : Build δ} (h : Paired R T x y)
    (rest : Paired R U z w) : Paired R U (do let _ ← x; z) (do let _ ← y; w) :=
  h.bind fun _ _ _ => rest

theorem map {x : Build α} {y : Build β} {f : α → γ} {g : β → δ} (h : Paired R T x y)
    (result : ∀ a b, T a b → U (f a) (g b)) : Paired R U (f <$> x) (g <$> y) := by
  rw [map_eq_pure_bind, map_eq_pure_bind]
  exact h.bind fun a b hab => pure (result a b hab)

theorem discard {x : Build α} {y : Build β} (h : Paired R T x y) :
    Paired R (fun _ _ => True) (Functor.discard x) (Functor.discard y) :=
  h.map fun _ _ _ => trivial

theorem get : Paired R (Query.Alike R) MonadState.get MonadState.get :=
  fun _ _ alike => .ok alike alike

theorem change {f g : Query → Query} (h : ∀ p q, p.Alike R q → (f p).Alike R (g q)) :
    Paired R (fun _ _ => True) (modify f : Build Unit) (modify g : Build Unit) :=
  fun p q alike => .ok trivial (h p q alike)

theorem changeSelect {f g : Select → Select} (h : ∀ s t, s.Alike R t → (f s).Alike R (g t)) :
    Paired R (fun _ _ => True) (modifySelect f) (modifySelect g) :=
  change fun p q alike => { alike with select := h p.select q.select alike.select }

theorem changeLoads {f : LoadRequest → LoadRequest} :
    Paired R (fun _ _ => True) (modifyLoads f) (modifyLoads f) :=
  change fun _ _ alike => { alike with loads := congrArg f alike.loads }

theorem ofExcept {x : Except Error α} {y : Except Error β} (h : AlikeResults T x y) :
    Paired R T (Build.ofExcept x) (Build.ofExcept y) := by
  cases h with
  | ok h => exact pure h
  | error e => exact throw

theorem on {p q : Query} {x : Build α} {y : Build β} (start : p.Alike R q) (h : Paired R T x y) :
    Paired R (fun a b => T a.1 b.1 ∧ a.2.Alike R b.2) (Build.on p x) (Build.on q y) := by
  intro p' q' alike
  have both := h p q start
  unfold Build.on EStateM.run
  generalize x p = r at both
  generalize y q = s at both
  cases both with
  | ok h ends => exact .ok ⟨h, ends⟩ alike
  | error e => exact .error e

theorem foldlM {β' : Type} {f : α → γ → Build α} {g : β → β' → Build β} {V : γ → β' → Prop}
    {xs : List γ} {ys : List β'} (items : List.Forall₂ V xs ys)
    (step : ∀ a b, T a b → ∀ x y, V x y → Paired R T (f a x) (g b y)) {a : α} {b : β}
    (start : T a b) : Paired R T (xs.foldlM f a) (ys.foldlM g b) := by
  induction items generalizing a b with
  | nil => exact pure start
  | cons first rest ih =>
    rw [List.foldlM_cons, List.foldlM_cons]
    exact (step a b start _ _ first).bind fun _ _ next => ih next

theorem mapM {f : γ → Build α} {g : γ → Build β} {items : List γ}
    (h : ∀ x, Paired R T (f x) (g x)) :
    Paired R (List.Forall₂ T) (items.mapM f) (items.mapM g) := by
  induction items with
  | nil => exact pure .nil
  | cons x rest ih =>
    rw [List.mapM_cons, List.mapM_cons]
    exact (h x).bind fun _ _ first => ih.bind fun _ _ others => pure (.cons first others)

end Paired

namespace Uniform

variable {α β γ : Type}

/-- What follows a common result. -/
theorem follow {U : β → γ → Prop} {x : Build α} {f : α → Build β} {g : α → Build γ}
    (h : Uniform R Eq x) (rest : ∀ a, Paired R U (f a) (g a)) : Paired R U (x >>= f) (x >>= g) := by
  refine Paired.bind h fun a b same => ?_
  subst same
  exact rest a

theorem forM {f : β → Build PUnit} {items : List β}
    (h : ∀ x, Uniform R (fun _ _ => True) (f x)) : Uniform R (fun _ _ => True) (items.forM f) := by
  induction items with
  | nil => exact .pure trivial
  | cons x rest ih => exact (h x).seq ih

theorem filterM {f : β → Build Bool} {items : List β} (h : ∀ x, Uniform R Eq (f x)) :
    Uniform R Eq (items.filterM f) := by
  have alike : ∀ rest found : List β, Uniform R Eq (rest.filterAuxM f found) := by
    intro rest
    induction rest with
    | nil => exact fun _ => .pure rfl
    | cons x rest ih =>
      intro found
      refine (h x).follow fun b => ?_
      exact ih _
  refine (alike items []).follow fun found => ?_
  exact .pure rfl

end Uniform

/-- A step that does not read the query runs alike on any two. -/
theorem Steady.uniform {α : Type} {step : Build α} (h : Steady step) : Uniform R Eq step := by
  obtain ⟨result, rfl⟩ := h
  exact .ofExcept (.same fun _ => rfl)

end Build

end Relata
