import Relata.Proofs.Query.Uniform

/-!
Calls of one method whose arguments differ in the values for placeholders alone. Which parameters
take such values, or refinements and drafts of such calls, is fixed for each method; all other
arguments are the same. Once they are settled and bound to parameters, arguments differ in the same
places.
-/

namespace Relata

open Sql (AlikeResults)

/-- What may differ in the place of a parameter. -/
inductive Place where
  | fixed
  | absent
  | value
  | items
  | callback
  | query
deriving DecidableEq

/-- Arguments of two calls in one place. -/
inductive Place.Varied (R : Value → Value → Prop) (calls : Call → Call → Prop) :
    Place → Value → Value → Prop where
  | same {place : Place} {v : Value} (given : place ≠ .absent) : Varied R calls place v v
  | value {v w : Value} (h : R v w) : Varied R calls .value v w
  | list {vs ws : List Value} (h : List.Forall₂ R vs ws) :
    Varied R calls .items (.list vs) (.list ws)
  | tuple {vs ws : List Value} (h : List.Forall₂ R vs ws) :
    Varied R calls .items (.tuple vs) (.tuple ws)
  | callback {xs ys : List Call} {answers : Bool} (h : List.Forall₂ calls xs ys) :
    Varied R calls .callback (.recipe xs answers) (.recipe ys answers)
  | query {base : Value} {xs ys : List Call} (h : List.Forall₂ calls xs ys) :
    Varied R calls .query (.draft base xs) (.draft base ys)

/-- Arguments of two calls place by place. -/
inductive Place.Each (T : Place → Value → Value → Prop) :
    List Place → List Value → List Value → Prop where
  | nil {places : List Place} : Each T places [] []
  | cons {place : Place} {places : List Place} {v w : Value} {vs ws : List Value}
    (first : T place v w) (rest : Each T places vs ws) :
    Each T (place :: places) (v :: vs) (w :: ws)

/-- Arguments of one name, in the place that belongs to it. -/
def Place.Named (T : Place → Value → Value → Prop) (place : String → Place)
    (e f : String × Value) : Prop :=
  e.1 = f.1 ∧ T (place e.1) e.2 f.2

/-- The place that a method opens by the name of a parameter. -/
def Place.at_ (opened : List (String × Place)) (name : String) : Place :=
  (opened.lookup name).getD .fixed

/-- A comparison has its value last, or alone in the place of the operator. -/
def Place.comparand (alone : Bool) : List (String × Place) :=
  if alone then [("operator", .value), ("value", .absent)] else [("value", .value)]

/-- The parameters in which calls of a method may differ. -/
inductive Method.Opens : Method → List (String × Place) → Prop where
  | where_ (j : Sql.Junction) (alone : Bool) :
    Opens (.where_ j) (("column", .callback) :: Place.comparand alone)
  | whereNot (alone : Bool) : Opens .whereNot (("column", .callback) :: Place.comparand alone)
  | having (j : Sql.Junction) (alone : Bool) :
    Opens (.having j) (("column", .callback) :: Place.comparand alone)
  | whereRelation (j : Sql.Junction) (alone : Bool) :
    Opens (.whereRelation j) (("column", .callback) :: Place.comparand alone)
  | wherePart (function : String) (alone : Bool) :
    Opens (.wherePart function) (Place.comparand alone)
  | whereLike (negated : Bool) :
    Opens (.whereLike negated) [("column", .callback), ("value", .value)]
  | whereEach (every : Bool) : Opens (.whereEach every) [("value", .value)]
  | whereIn (j : Sql.Junction) (negated : Bool) : Opens (.whereIn j negated) [("values", .items)]
  | whereBetween (j : Sql.Junction) (negated : Bool) :
    Opens (.whereBetween j negated) [("values", .items)]
  | whereRaw (j : Sql.Junction) : Opens (.whereRaw j) [("bindings", .items)]
  | havingRaw : Opens .havingRaw [("bindings", .items)]
  | selectRaw : Opens .selectRaw [("bindings", .items)]
  | whereHas (j : Sql.Junction) : Opens (.whereHas j) [("callback", .callback)]
  | doesntHave (j : Sql.Junction) : Opens (.doesntHave j) [("callback", .callback)]
  | whereHasMorph (j : Sql.Junction) : Opens (.whereHasMorph j) [("callback", .callback)]
  | when (expected : Bool) :
    Opens (.when expected) [("callback", .callback), ("default", .callback)]
  | tap : Opens .tap [("callback", .callback)]
  | union (all : Bool) : Opens (.union all) [("query", .query)]

/-- What a method takes for an argument left out stands in a place where one may be given. -/
theorem Method.Opens.given {m : Method} {s : Signature} {opened : List (String × Place)}
    (opens : m.Opens opened) (takes : m.signature = some s) :
    ∀ p ∈ s, ∀ v, p.presence = .default v → Place.at_ opened p.name ≠ .absent := by
  have check : (s.all fun p => match p.presence with
      | .default _ => Place.at_ opened p.name != .absent
      | _ => true) = true := by
    cases opens <;> cases takes <;> rfl
  intro p hp v default
  have own := List.all_eq_true.mp check p hp
  rw [default] at own
  exact bne_iff_ne.mp own

/-- Calls that are the same, or differ in places that their method opens. -/
inductive Call.Varied (R : Value → Value → Prop) : Call → Call → Prop where
  | same (c : Call) : Varied R c c
  | given {name : String} {m : Method} {signature : Signature} {opened : List (String × Place)}
      {args others : List Value} {named renamed : List (String × Value)}
      (known : Method.ofName? name = some m) (takes : m.signature = some signature)
      (opens : m.Opens opened)
      (inOrder : Place.Each (Place.Varied R (Varied R))
        (signature.map fun p => Place.at_ opened p.name) args others)
      (names : named.map Prod.fst = renamed.map Prod.fst)
      (byName : Place.Each (Place.Varied R (Varied R))
        (named.map fun e => Place.at_ opened e.1) (named.map Prod.snd) (renamed.map Prod.snd)) :
      Varied R (.mk name args named) (.mk name others renamed)

/-- There is no query to be had from the value. -/
def Value.NoQuery (v : Value) : Prop :=
  ∀ env inner, Build.queryOf env inner v = throw .noAttribute

/-- The value has no holes to fill. -/
def Value.Settled (v : Value) : Prop := ∀ env inner, Build.settle env inner v = pure v

/-- Values that may stand for each other. -/
structure Exchange (R : Value → Value → Prop) : Prop where
  refl : ∀ v, R v v
  nulls : ∀ v w, R v w → v.isNull = w.isNull
  settled : ∀ v w, R v w → v = w ∨ v.Settled ∧ w.Settled

/-- What two runs answer: both the query itself, or alike queries, or values that are none. -/
inductive Answer.Alike (R : Value → Value → Prop) : Answer → Answer → Prop where
  | self : Alike R .self .self
  | other {p q : Query} (h : p.Alike R q) : Alike R (.other p) (.other q)
  | value {v w : Value} (nulls : v.isNull = w.isNull) (first : v.NoQuery) (second : w.NoQuery) :
    Alike R (.value v) (.value w)

theorem Answer.orSelf_value (v : Value) :
    (Answer.value v).orSelf = if v.isNull then .self else .value v := by
  cases v <;> rfl

theorem Answer.Alike.orSelf {R : Value → Value → Prop} {a b : Answer} (h : a.Alike R b) :
    a.orSelf.Alike R b.orSelf := by
  cases h with
  | self => exact .self
  | other h => exact .other h
  | value nulls first second =>
    rw [orSelf_value, orSelf_value, nulls]
    split
    · exact .self
    · exact .value nulls first second

/-- Settled arguments in one place; a draft may have come to a value that is no query. -/
inductive Place.Settled (R : Value → Value → Prop) : Place → Value → Value → Prop where
  | varied {place : Place} {v w : Value} (h : place.Varied R (Call.Varied R) v w) :
    Settled R place v w
  | noQuery {v w : Value} (first : v.NoQuery) (second : w.NoQuery) : Settled R .query v w

namespace Place

/-- Refinements that make calls which differ in values alone. -/
abbrev Callbacks (R : Value → Value → Prop) : Value → Value → Prop :=
  Place.Varied R (Call.Varied R) .callback

variable {R : Value → Value → Prop} {v w : Value}

theorem Callbacks.same (v : Value) : Callbacks R v v := Place.Varied.same Place.noConfusion

theorem Callbacks.isNull (h : Callbacks R v w) : v.isNull = w.isNull := by
  cases h <;> rfl

/-- What is no refinement is the same. -/
theorem Callbacks.eq_or (h : Callbacks R v w) :
    v = w ∨ v.isCallable = true ∧ w.isCallable = true := by
  cases h with
  | same => exact .inl rfl
  | callback => exact .inr ⟨rfl, rfl⟩

namespace Settled

theorem eq_of_fixed (h : Place.fixed.Settled R v w) : v = w := by
  cases h with
  | varied h => cases h with
    | same => rfl

theorem not_absent : ¬ Place.absent.Settled R v w := by
  intro h
  cases h with
  | varied h => cases h with
    | same given => exact given rfl

theorem value (refl : ∀ v, R v v) (h : Place.value.Settled R v w) : R v w := by
  cases h with
  | varied h => cases h with
    | same => exact refl v
    | value h => exact h

theorem callbacks (h : Place.callback.Settled R v w) : Callbacks R v w := by
  cases h with
  | varied h => exact h

end Settled

theorem option_eq {o o' : Option Value} (h : Option.Rel (Place.fixed.Settled R) o o') :
    o = o' := by
  cases h with
  | none => rfl
  | some h => rw [h.eq_of_fixed]

end Place

namespace Signature

/-- Bound arguments of two calls, parameter by parameter. -/
inductive Bound (T : String → Value → Value → Prop) :
    Signature → List (Option Value) → List (Option Value) → Prop where
  | nil : Bound T [] [] []
  | cons {p : Parameter} {s : Signature} {a b : Option Value} {as bs : List (Option Value)}
    (first : Option.Rel (T p.name) a b) (rest : Bound T s as bs) :
    Bound T (p :: s) (a :: as) (b :: bs)

variable {T : Place → Value → Value → Prop} {place : String → Place}

theorem lookup_alike {named renamed : List (String × Value)}
    (h : List.Forall₂ (Place.Named T place) named renamed) (name : String) :
    Option.Rel (T (place name)) (named.lookup name) (renamed.lookup name) := by
  induction h with
  | nil => exact .none
  | @cons e f named renamed first rest ih =>
    obtain ⟨own, v⟩ := e
    obtain ⟨own', w⟩ := f
    obtain ⟨same, h⟩ := first
    obtain rfl : own = own' := same
    by_cases same : name = own
    · subst same
      rw [List.lookup_cons_self, List.lookup_cons_self]
      exact .some h
    · rw [List.lookup_cons, List.lookup_cons, beq_false_of_ne same]
      exact ih

theorem filter_alike {named renamed : List (String × Value)}
    (h : List.Forall₂ (Place.Named T place) named renamed) (name : String) :
    List.Forall₂ (Place.Named T place) (named.filter (·.1 != name))
      (renamed.filter (·.1 != name)) := by
  refine List.rel_filter (fun e f alike => ?_) h
  dsimp only
  rw [alike.1]

/-- Arguments that are alike place by place are bound alike, or refused alike. -/
theorem bind_alike {s : Signature}
    (defaults : ∀ p ∈ s, ∀ v, p.presence = .default v → T (place p.name) v v)
    {args others : List Value} {named renamed : List (String × Value)}
    (inOrder : Place.Each T (s.map fun p => place p.name) args others)
    (byName : List.Forall₂ (Place.Named T place) named renamed) :
    AlikeResults (Bound (fun name => T (place name)) s) (s.bind args named)
      (s.bind others renamed) := by
  induction s generalizing args others named renamed with
  | nil =>
    cases inOrder
    cases byName with
    | nil => exact .ok .nil
    | cons => exact .error _
  | cons p s ih =>
    have others := fun q hq => defaults q (List.mem_cons_of_mem p hq)
    have own := lookup_alike byName p.name
    cases inOrder with
    | cons first rest =>
      unfold bind
      generalize named.lookup p.name = a at own
      generalize renamed.lookup p.name = b at own
      cases own with
      | some => exact .error _
      | none => exact (ih others rest byName).map fun _ _ h => .cons (.some first) h
    | nil =>
      unfold bind
      generalize named.lookup p.name = a at own
      generalize renamed.lookup p.name = b at own
      cases own with
      | some h =>
        exact (ih others .nil (filter_alike byName p.name)).map fun _ _ hs => .cons (.some h) hs
      | none =>
        cases presence : p.presence with
        | required => exact .error _
        | absent => exact (ih others .nil byName).map fun _ _ h => .cons .none h
        | default v =>
          have own := defaults p List.mem_cons_self v presence
          exact (ih others .nil byName).map fun _ _ h => .cons (.some own) h

end Signature

namespace Build

variable {R : Value → Value → Prop} {env : Env} {inner : Caller}

/-- Calls that differ in values run alike. -/
def Tied (R : Value → Value → Prop) (inner : Caller) : Prop :=
  ∀ c d, Call.Varied R c d → Paired R (Answer.Alike R) (inner c) (inner d)

theorem paired_answerOn {p q : Query} {x y : Build Answer} (start : p.Alike R q)
    (h : Paired R (Answer.Alike R) x y) :
    Paired R (Answer.Alike R) (answerOn p x) (answerOn q y) := by
  refine (Paired.on start h).bind fun r s both => ?_
  obtain ⟨answer, after⟩ := r
  obtain ⟨answer', after'⟩ := s
  obtain ⟨answers, queries⟩ := both
  cases answers with
  | self => exact .pure (.other queries)
  | other h => exact .pure (.other h)
  | value nulls first second => exact .pure (.value nulls first second)

section

variable (tied : Tied R inner)
include tied

theorem paired_chain {xs ys : List Call} (h : List.Forall₂ (Call.Varied R) xs ys) :
    Paired R (Answer.Alike R) (chain inner xs) (chain inner ys) := by
  refine .foldlM h (fun a b alike c d varied => ?_) .self
  cases alike with
  | self => exact tied c d varied
  | other start => exact paired_answerOn start (tied c d varied)
  | value => exact .throw

theorem paired_buildDraft (refl : ∀ v, R v v) {base : Value} {xs ys : List Call}
    (h : List.Forall₂ (Call.Varied R) xs ys) :
    Paired R (Answer.Alike R) (buildDraft env inner base xs) (buildDraft env inner base ys) := by
  refine Steady.ofExcept.uniform.follow fun start => ?_
  exact paired_answerOn (.same refl start) (paired_chain tied h)

end

section

variable (exchange : Exchange R)
include exchange

/-- Filling holes leaves arguments in their place. -/
theorem paired_settle {v w : Value} (h : R v w) :
    Paired R R (settle env inner v) (settle env inner w) := by
  obtain rfl | ⟨first, second⟩ := exchange.settled v w h
  · refine (steady_settle v).uniform.mono fun a b same => ?_
    subst same
    exact exchange.refl a
  · rw [first env inner, second env inner]
    exact .pure h

theorem paired_settleItems {vs ws : List Value} (h : List.Forall₂ R vs ws) :
    Paired R (List.Forall₂ R) (settleItems env inner vs) (settleItems env inner ws) := by
  induction h with
  | nil => exact .pure .nil
  | cons first rest ih =>
    exact (paired_settle exchange first).bind fun _ _ h =>
      ih.bind fun _ _ others => .pure (.cons h others)

variable (tied : Tied R inner)
include tied

theorem paired_settlePlace {place : Place} {v w : Value}
    (h : place.Varied R (Call.Varied R) v w) :
    Paired R (place.Settled R) (settle env inner v) (settle env inner w) := by
  cases h with
  | same given =>
    refine (steady_settle v).uniform.mono fun a b same => ?_
    subst same
    exact .varied (.same given)
  | value h => exact (paired_settle exchange h).mono fun _ _ h => .varied (.value h)
  | list h =>
    unfold settle
    exact (paired_settleItems exchange h).map fun _ _ h => .varied (.list h)
  | tuple h =>
    unfold settle
    exact (paired_settleItems exchange h).map fun _ _ h => .varied (.tuple h)
  | callback h => exact .pure (.varied (.callback h))
  | query h =>
    unfold settle
    refine (paired_buildDraft tied exchange.refl h).bind fun a b answers => ?_
    cases answers with
    | self => exact .pure (.varied (.query h))
    | other => exact .pure (.varied (.query h))
    | value nulls first second => exact .pure (.noQuery first second)

theorem paired_settleEach {places : List Place} {vs ws : List Value}
    (h : Place.Each (Place.Varied R (Call.Varied R)) places vs ws) :
    Paired R (Place.Each (Place.Settled R) places) (settleItems env inner vs)
      (settleItems env inner ws) := by
  induction h with
  | nil => exact .pure .nil
  | cons first rest ih =>
    exact (paired_settlePlace exchange tied first).bind fun _ _ h =>
      ih.bind fun _ _ others => .pure (.cons h others)

theorem paired_settleNamed {place : String → Place} {named renamed : List (String × Value)}
    (names : named.map Prod.fst = renamed.map Prod.fst)
    (h : Place.Each (Place.Varied R (Call.Varied R)) (named.map fun e => place e.1)
      (named.map Prod.snd) (renamed.map Prod.snd)) :
    Paired R (List.Forall₂ (Place.Named (Place.Settled R) place))
      (settleNamed env inner named) (settleNamed env inner renamed) := by
  induction named generalizing renamed with
  | nil =>
    obtain rfl : renamed = [] := List.map_eq_nil_iff.mp names.symm
    exact .pure .nil
  | cons e named ih => cases renamed with
    | nil => cases names
    | cons f renamed =>
      obtain ⟨name, v⟩ := e
      obtain ⟨name', w⟩ := f
      obtain ⟨rfl, others⟩ := List.cons.inj names
      cases h with
      | cons first rest =>
        refine (paired_settlePlace exchange tied first).bind fun a b hab => ?_
        exact (ih others rest).bind fun _ _ hs => .pure (.cons ⟨rfl, hab⟩ hs)

end

end Build

end Relata
