import Mathlib.Data.List.Forall2
import Relata.Proofs.Sql.Where

/-!
Statements that differ in their values alone. Two tests are alike under a relation of values if one
comes from the other by putting related values in the places of values; so are two conditions of one
shape with alike tests, and two selects that agree in all else. Main statement: alike selects are
written as the same text, or refused for the same cause, and their values are related place by
place.
-/

namespace Relata.Sql

variable {R : Value → Value → Prop}

/-- Two results of one kind: related ones, or failures for the same cause. -/
inductive AlikeResults {α β : Type} (T : α → β → Prop) :
    Except Error α → Except Error β → Prop where
  | ok {a : α} {b : β} (h : T a b) : AlikeResults T (.ok a) (.ok b)
  | error (e : Error) : AlikeResults T (.error e) (.error e)

namespace AlikeResults

variable {α β γ δ : Type} {T : α → β → Prop} {U : γ → δ → Prop}

theorem bind {x : Except Error α} {y : Except Error β} {f : α → Except Error γ}
    {g : β → Except Error δ} (h : AlikeResults T x y)
    (step : ∀ a b, T a b → AlikeResults U (f a) (g b)) : AlikeResults U (x >>= f) (y >>= g) := by
  cases h with
  | ok h => exact step _ _ h
  | error e => exact .error e

theorem map {x : Except Error α} {y : Except Error β} {f : α → γ} {g : β → δ}
    (h : AlikeResults T x y) (result : ∀ a b, T a b → U (f a) (g b)) :
    AlikeResults U (x.map f) (y.map g) := by
  cases h with
  | ok h => exact .ok (result _ _ h)
  | error e => exact .error e

theorem same {x : Except Error α} {S : α → α → Prop} (h : ∀ a, S a a) : AlikeResults S x x := by
  cases x with
  | ok a => exact .ok (h a)
  | error e => exact .error e

/-- What follows a common result. -/
theorem follow {x : Except Error α} {f : α → Except Error γ} {g : α → Except Error δ}
    (rest : ∀ a, AlikeResults U (f a) (g a)) : AlikeResults U (x >>= f) (x >>= g) := by
  cases x with
  | ok a => exact rest a
  | error e => exact .error e

theorem mapM {f : α → Except Error γ} {g : β → Except Error δ} {xs : List α} {ys : List β}
    (h : List.Forall₂ T xs ys) (step : ∀ a b, T a b → AlikeResults U (f a) (g b)) :
    AlikeResults (List.Forall₂ U) (xs.mapM f) (ys.mapM g) := by
  induction h with
  | nil => exact .ok .nil
  | cons first rest ih =>
    rw [List.mapM_cons, List.mapM_cons]
    refine bind (step _ _ first) fun a b hab => ?_
    exact bind ih fun as bs hs => .ok (.cons hab hs)

end AlikeResults

/-- The same text, with related values. -/
structure Fragment.Alike (R : Value → Value → Prop) (f g : Fragment) : Prop where
  text : f.text = g.text
  values : List.Forall₂ R f.values g.values

namespace Fragment.Alike

theorem append {f f' g g' : Fragment} (hf : f.Alike R f') (hg : g.Alike R g') :
    (f ++ g).Alike R (f' ++ g') :=
  ⟨by simp [hf.text, hg.text], List.rel_append hf.values hg.values⟩

theorem plain (s : String) : (Fragment.plain s).Alike R (.plain s) := ⟨rfl, .nil⟩

theorem concat {fs gs : List Fragment} (h : List.Forall₂ (Fragment.Alike R) fs gs) :
    (Fragment.concat fs).Alike R (.concat gs) := by
  induction h with
  | nil => exact plain ""
  | cons first rest ih => exact first.append ih

theorem same (refl : ∀ v, R v v) (f : Fragment) : f.Alike R f :=
  ⟨rfl, List.forall₂_same.mpr fun v _ => refl v⟩

end Fragment.Alike

/-- One test with related values in its places. -/
inductive Test.Alike (R : Value → Value → Prop) : Test → Test → Prop where
  | compare {column operator : String} {v w : Value} (h : R v w) :
      Alike R (.compare column operator v) (.compare column operator w)
  | among {negated : Bool} {column : String} {items others : List Value}
      (h : List.Forall₂ R items others) :
      Alike R (.among negated column items) (.among negated column others)
  | null {negated : Bool} {column : String} : Alike R (.null negated column) (.null negated column)
  | between {negated : Bool} {column : String} {v w low high : Value} (first : R v low)
      (second : R w high) :
      Alike R (.between negated column v w) (.between negated column low high)
  | raw {text context : String} {bindings others : List Value}
      (h : List.Forall₂ R bindings others) :
      Alike R (.raw text bindings context) (.raw text others context)

theorem Test.Alike.fragment {t u : Test} (h : t.Alike R u) : t.fragment.Alike R u.fragment := by
  cases h with
  | compare h => exact ⟨rfl, .cons h .nil⟩
  | @among negated column items others h =>
    have marks : items.map (fun _ => "?") = others.map fun _ => "?" := by
      rw [List.map_const', List.map_const', h.length_eq]
    cases h with
    | nil => exact Fragment.Alike.plain _
    | cons first rest =>
      refine ⟨?_, .cons first rest⟩
      simp only [Test.fragment, List.isEmpty_cons]
      rw [marks]
      rfl
  | null => exact Fragment.Alike.plain _
  | between first second => exact ⟨rfl, .cons first (.cons second .nil)⟩
  | raw h => exact ⟨rfl, h⟩

/-- Tokens of one kind, the tests among them alike. -/
inductive Token.Alike (R : Value → Value → Prop) : Token Test → Token Test → Prop where
  | leaf {t u : Test} (h : t.Alike R u) : Alike R (.leaf t) (.leaf u)
  | junction (j : Junction) : Alike R (.junction j) (.junction j)
  | opening (negated : Bool) : Alike R (.opening negated) (.opening negated)
  | closing : Alike R .closing .closing

theorem Token.Alike.fragment {t u : Token Test} (h : t.Alike R u) :
    t.fragment.Alike R u.fragment := by
  cases h with
  | leaf h => exact h.fragment
  | junction j => exact .plain _
  | opening negated => exact .plain _
  | closing => exact .plain _

/-- Conditions with the same junction that come out as alike tokens. -/
structure Clause.Alike (R : Value → Value → Prop) (c d : Clause) : Prop where
  junction : c.junction = d.junction
  tokens : List.Forall₂ (Token.Alike R) c.tokens d.tokens

namespace Clause.Alike

theorem leaf {j : Junction} {t u : Test} (h : t.Alike R u) :
    Clause.Alike R (.leaf j t) (.leaf j u) :=
  ⟨rfl, .cons (.leaf h) .nil⟩

theorem isEmpty_eq {α β : Type} {T : α → β → Prop} {xs : List α} {ys : List β}
    (h : List.Forall₂ T xs ys) : xs.isEmpty = ys.isEmpty := by
  cases h <;> rfl

/-- Siblings that are alike one by one come out alike. -/
theorem rowFrom {cs ds : List Clause} (h : List.Forall₂ (Clause.Alike R) cs ds)
    (started : Bool) :
    List.Forall₂ (Token.Alike R) (Condition.rowFrom started cs) (Condition.rowFrom started ds) := by
  induction h generalizing started with
  | nil => exact .nil
  | cons first rest ih =>
    unfold Condition.rowFrom
    dsimp only
    rw [isEmpty_eq first.tokens, first.junction]
    split
    · exact ih started
    · refine List.rel_append (List.rel_append ?_ first.tokens) (ih true)
      split
      · exact .cons (.junction _) .nil
      · exact .nil

theorem group {j : Junction} {negated : Bool} {cs ds : List Clause}
    (h : List.Forall₂ (Clause.Alike R) cs ds) :
    Clause.Alike R (.group j negated cs) (.group j negated ds) := by
  have inside := rowFrom h false
  refine ⟨rfl, ?_⟩
  unfold Condition.tokens
  dsimp only
  rw [isEmpty_eq inside]
  split
  · exact .nil
  · exact List.rel_append (.cons (.opening negated) inside) (.cons .closing .nil)

/-- Alike lists of conditions have the same text. -/
theorem compile {cs ds : List Clause} (h : List.Forall₂ (Clause.Alike R) cs ds) :
    (Clause.compile cs).Alike R (Clause.compile ds) :=
  .concat (List.rel_map (fun _ _ ht => ht.fragment) (rowFrom h false))

theorem same (refl : ∀ v, R v v) (c : Clause) : c.Alike R c := by
  refine ⟨rfl, List.forall₂_same.mpr fun t _ => ?_⟩
  cases t with
  | leaf t =>
    refine .leaf ?_
    cases t with
    | compare column operator v => exact .compare (refl v)
    | among negated column items => exact .among (List.forall₂_same.mpr fun v _ => refl v)
    | null negated column => exact .null
    | between negated column low high => exact .between (refl low) (refl high)
    | raw text bindings context => exact .raw (List.forall₂_same.mpr fun v _ => refl v)
  | junction j => exact .junction j
  | opening negated => exact .opening negated
  | closing => exact .closing

end Clause.Alike

/-- Selects that agree in all but the values of their columns and of their conditions. -/
structure Select.Alike (R : Value → Value → Prop) (s t : Select) : Prop where
  rest : { s with conditions := [], having := [], bindings := [] } =
    { t with conditions := [], having := [], bindings := [] }
  conditions : List.Forall₂ (Clause.Alike R) s.conditions t.conditions
  having : List.Forall₂ (Clause.Alike R) s.having t.having
  bindings : List.Forall₂ R s.bindings t.bindings

namespace Select

variable {s t : Select}

theorem Alike.same (refl : ∀ v, R v v) (s : Select) : s.Alike R s where
  rest := rfl
  conditions := List.forall₂_same.mpr fun c _ => .same refl c
  having := List.forall₂_same.mpr fun c _ => .same refl c
  bindings := List.forall₂_same.mpr fun v _ => refl v

/-- What is read off the rest of a select is the same for both. -/
theorem Alike.agree {α : Type} (h : s.Alike R t) (f : Select → α)
    (blind : ∀ q : Select, f { q with conditions := [], having := [], bindings := [] } = f q) :
    f s = f t := by
  rw [← blind s, ← blind t, h.rest]

/-- The change neither reads nor touches conditions and the values of columns. -/
def Blind (f : Select → Select) : Prop :=
  ∀ (q : Select) (conditions having : List Clause) (bindings : List Value),
    f { q with conditions := conditions, having := having, bindings := bindings } =
      { f q with conditions := conditions, having := having, bindings := bindings }

theorem Alike.update (h : s.Alike R t) {f : Select → Select} (blind : Blind f) :
    (f s).Alike R (f t) := by
  have own : ∀ q : Select, f q = { f q with
      conditions := q.conditions, having := q.having, bindings := q.bindings } :=
    fun q => blind q q.conditions q.having q.bindings
  have rest := congrArg f h.rest
  rw [blind s, blind t] at rest
  refine ⟨rest, ?_, ?_, ?_⟩
  · rw [own s, own t]
    exact h.conditions
  · rw [own s, own t]
    exact h.having
  · rw [own s, own t]
    exact h.bindings

theorem Alike.from_ (h : s.Alike R t) : s.from_ = t.from_ := h.agree Select.from_ fun _ => rfl

theorem Alike.table (h : s.Alike R t) : s.table = t.table := h.agree Select.table fun _ => rfl

theorem Alike.source (h : s.Alike R t) : s.source = t.source := h.agree Select.source fun _ => rfl

theorem Alike.pivot (h : s.Alike R t) : s.pivot = t.pivot := h.agree Select.pivot fun _ => rfl

/-- The deletion scope stands in the same place, by itself or after the conditions. -/
theorem Alike.whereList (h : s.Alike R t) (refl : ∀ v, R v v) (table : String) :
    List.Forall₂ (Clause.Alike R) (s.whereList table) (t.whereList table) := by
  have scope : s.deletionScope table = t.deletionScope table :=
    h.agree (fun q => q.deletionScope table) fun _ => rfl
  have alternatives : hasAlternative s.conditions = hasAlternative t.conditions := by
    unfold hasAlternative
    have later := List.forall₂_drop 1 h.conditions
    generalize s.conditions.drop 1 = cs at later
    generalize t.conditions.drop 1 = ds at later
    induction later with
    | nil => rfl
    | cons first rest ih => rw [List.any_cons, List.any_cons, first.junction, ih]
  have own : List.Forall₂ (Clause.Alike R) (s.deletionScope table) (t.deletionScope table) := by
    rw [scope]
    exact List.forall₂_same.mpr fun c _ => .same refl c
  unfold Select.whereList
  dsimp only
  rw [alternatives, scope] at *
  split
  · exact .cons (.group h.conditions) own
  · exact List.rel_append h.conditions own

theorem alike_clause {keyword : String} {cs ds : List Clause}
    (h : List.Forall₂ (Clause.Alike R) cs ds) :
    (clause keyword cs).Alike R (clause keyword ds) := by
  have inside := Clause.Alike.compile h
  unfold clause
  dsimp only
  rw [inside.text]
  split
  · exact .plain ""
  · exact (Fragment.Alike.plain _).append inside

/-- Alike selects are written as the same text. -/
theorem Alike.body (h : s.Alike R t) (refl : ∀ v, R v v) :
    AlikeResults (Fragment.Alike R) s.body t.body := by
  have columns : listed s.columns = listed t.columns :=
    h.agree (fun q => listed q.columns) fun _ => rfl
  have grouping : listed s.grouping = listed t.grouping :=
    h.agree (fun q => listed q.grouping) fun _ => rfl
  unfold Select.body
  rw [columns, grouping]
  refine .follow fun written => ?_
  refine .follow fun groups => ?_
  have joins : s.joins = t.joins := h.agree Select.joins fun _ => rfl
  have distinct : s.distinct = t.distinct := h.agree Select.distinct fun _ => rfl
  have names : s.grouping = t.grouping := h.agree Select.grouping fun _ => rfl
  unfold bodyOf
  rw [h.from_, joins, distinct, names]
  refine .ok (.append (.append (.append (.append ?_ ?_) ?_) (.plain _)) ?_)
  · exact ⟨rfl, h.bindings⟩
  · exact .same refl _
  · exact alike_clause (h.whereList refl _)
  · exact alike_clause h.having

theorem Alike.tail (h : s.Alike R t) : s.tail = t.tail := h.agree Select.tail fun _ => rfl

theorem Alike.compile (h : s.Alike R t) (refl : ∀ v, R v v) :
    AlikeResults (Fragment.Alike R) s.compile t.compile := by
  unfold Select.compile
  refine .bind (h.body refl) fun f g hfg => ?_
  rw [h.tail]
  exact .follow fun tail => .ok (hfg.append (.plain _))

end Select

/-- Statements of alike selects. -/
structure Statement.Alike (R : Value → Value → Prop) (s t : Statement) : Prop where
  select : s.select.Alike R t.select
  branches : List.Forall₂ (fun b c : Branch => b.all = c.all ∧ b.select.Alike R c.select)
    s.branches t.branches

/-- Alike statements are written as the same text, or refused for the same cause. -/
theorem Statement.Alike.compile {s t : Statement} (h : s.Alike R t) (refl : ∀ v, R v v) :
    AlikeResults (Fragment.Alike R) s.compile t.compile := by
  unfold Statement.compile
  refine .bind (h.select.body refl) fun f g hfg => ?_
  have branches : AlikeResults (List.Forall₂ (Fragment.Alike R))
      (s.branches.mapM branchFragment) (t.branches.mapM branchFragment) := by
    refine .mapM h.branches fun b c hbc => ?_
    unfold branchFragment
    rw [hbc.1]
    exact (hbc.2.body refl).map fun _ _ body => (Fragment.Alike.plain _).append body
  refine .bind branches fun fs gs hs => ?_
  rw [h.select.tail]
  exact .follow fun tail => .ok ((hfg.append (.concat hs)).append (.plain _))

theorem Statement.Alike.checked {s t : Statement} (h : s.Alike R t) (refl : ∀ v, R v v)
    (context : String) :
    AlikeResults (Fragment.Alike R) (s.checked context) (t.checked context) := by
  unfold Statement.checked
  refine .bind (h.compile refl) fun f g hfg => ?_
  rw [hfg.text]
  exact .follow fun _ => .ok hfg

end Relata.Sql
