import Relata.Proofs.Query.Narrowing

/-!
Calls that narrow a query down: those of the where family, those that order the rows, choose among
deleted ones or ask for relations, and those that make such calls in turn. Main statement: a chain
of them adds conditions to what is there, the same ones to every query on the same table, and each
of them joined as some call of the chain joins its own.
-/

namespace Relata

open Sql (Clause Junction)

namespace Method

/-- The junction by which a method of the where family joins its conditions to the ones before
them; a method that is not of that family has none. -/
def junction? : Method → Option Junction
  | where_ j | whereIn j _ | whereNull j _ | whereBetween j _ | whereRaw j | whereColumn j
  | whereHas j | has j | doesntHave j | whereRelation j | whereHasMorph j => some j
  | whereNot | whereLike _ | whereEach _ | wherePart _ | withWhereHas | whereBelongsTo
  | whereMorphedTo => some .and
  | _ => none

/-- Whether a method does no more than order the rows, choose among deleted ones or ask for
relations. -/
def isAside : Method → Bool
  | orderBy | orderByDescending | byAge _ | randomOrder | reorder | trashed _ | with_ | without
  | withOnly => true
  | _ => false

end Method

/-- The call narrows a query down by conditions that are joined as `J` allows. What a refinement
inside such a condition does is of no concern. -/
inductive Env.NarrowingCall (env : Env) (J : Junction → Prop) : Call → Prop where
  | where_ {c : Call} {m : Method} {j : Junction} (named : Method.ofName? c.method = some m)
      (joins : m.junction? = some j) (allowed : J j) : NarrowingCall env J c
  | aside {c : Call} {m : Method} (named : Method.ofName? c.method = some m)
      (aside : m.isAside = true) : NarrowingCall env J c
  | tap {calls : List Call} {answers : Bool} (own : ∀ c ∈ calls, NarrowingCall env J c) :
      NarrowingCall env J (.mk "tap" [.recipe calls answers] [])
  | when {name : String} {expected : Bool} {condition : Value} {calls : List Call} {answers : Bool}
      (named : Method.ofName? name = some (.when expected))
      (own : ∀ c ∈ calls, NarrowingCall env J c) :
      NarrowingCall env J (.mk name [condition, .recipe calls answers] [])
  | scope {name : String} {args : List Value}
      (own : ∀ id m, env.catalog.model? id = some m → ∀ s ∈ m.scopes, s.name = name →
        ∀ given, ∀ c ∈ Value.fillCalls given s.calls, NarrowingCall env J c) :
      NarrowingCall env J (.mk "scope" (.text name :: args) [])

/-- A refinement, if there is one, makes narrowing calls. -/
inductive Env.NarrowingCallback (env : Env) (J : Junction → Prop) : Value → Prop where
  | none : NarrowingCallback env J .null
  | recipe {calls : List Call} {answers : Bool} (own : ∀ c ∈ calls, env.NarrowingCall J c) :
      NarrowingCallback env J (.recipe calls answers)

namespace Build

variable {J : Junction → Prop} {env : Env} {inner : Caller}

theorem narrows_done {step : Build Unit} (h : Narrows J step fun _ => True) :
    Narrows J (done step) fun answer => answer = .self :=
  h.seq (.pure rfl)

/-- A method of the where family. -/
theorem narrows_perform {m : Method} {j : Junction} (joins : m.junction? = some j) (h : J j)
    (args : List (Option Value)) :
    Narrows J (perform env inner m args) fun answer => answer = .self := by
  unfold perform
  cases m with
  | where_ =>
    obtain rfl := Option.some.inj joins
    dsimp only
    split
    · exact narrows_done (narrows_compareOrGroup h)
    · exact .throw
  | whereNot =>
    obtain rfl := Option.some.inj joins
    dsimp only
    split
    · exact narrows_done (narrows_whereNot h)
    · exact .throw
  | whereIn =>
    obtain rfl := Option.some.inj joins
    dsimp only
    split
    · exact narrows_done (steady_opened.narrows.bind fun _ _ => narrows_whereIn h)
    · exact .throw
  | whereNull =>
    obtain rfl := Option.some.inj joins
    dsimp only
    split
    · exact narrows_done (narrows_whereNull h)
    · exact .throw
  | whereBetween =>
    obtain rfl := Option.some.inj joins
    dsimp only
    split
    · exact narrows_done (steady_opened.narrows.bind fun _ _ => narrows_whereBetween h)
    · exact .throw
  | whereRaw =>
    obtain rfl := Option.some.inj joins
    dsimp only
    split
    · exact narrows_done (steady_givenBindings.narrows.bind fun _ _ => narrows_addRaw h)
    · exact .throw
  | whereColumn =>
    obtain rfl := Option.some.inj joins
    dsimp only
    split
    · exact narrows_done (narrows_addFragment h)
    · exact .throw
  | whereLike | wherePart =>
    obtain rfl := Option.some.inj joins
    dsimp only
    split
    · exact narrows_done (narrows_compareOrGroup h)
    · exact .throw
  | whereEach =>
    obtain rfl := Option.some.inj joins
    dsimp only
    split
    · exact narrows_done (steady_opened.narrows.bind fun _ _ => narrows_whereEach h)
    · exact .throw
  | withWhereHas =>
    obtain rfl := Option.some.inj joins
    dsimp only
    split
    · exact narrows_done ((narrows_whereHas h).seq narrows_with_)
    · exact .throw
  | whereHas | whereRelation =>
    obtain rfl := Option.some.inj joins
    dsimp only
    split
    · exact narrows_done (narrows_whereHas h)
    · exact .throw
  | has =>
    obtain rfl := Option.some.inj joins
    dsimp only
    split
    · exact narrows_done (narrows_has h)
    · exact .throw
  | doesntHave =>
    obtain rfl := Option.some.inj joins
    dsimp only
    split
    · exact narrows_done (narrows_doesntHave h)
    · exact .throw
  | whereBelongsTo =>
    obtain rfl := Option.some.inj joins
    dsimp only
    split
    · exact narrows_done (narrows_whereBelongsTo h)
    · exact .throw
  | whereHasMorph =>
    obtain rfl := Option.some.inj joins
    dsimp only
    split
    · exact narrows_done (narrows_whereHasMorph h)
    · exact .throw
  | whereMorphedTo =>
    obtain rfl := Option.some.inj joins
    dsimp only
    split
    · exact narrows_done (narrows_whereMorphedTo h)
    · exact .throw
  | _ => cases joins

theorem narrows_perform_aside {m : Method} (aside : m.isAside = true)
    (args : List (Option Value)) :
    Narrows J (perform env inner m args) fun answer => answer = .self := by
  unfold perform
  cases m with
  | orderBy | orderByDescending | byAge =>
    dsimp only
    split
    · exact narrows_done narrows_orderBy
    · exact .throw
  | randomOrder =>
    dsimp only
    split
    · exact narrows_done .changeOrders
    · exact .throw
  | reorder =>
    dsimp only
    split
    · exact narrows_done narrows_reorder
    · exact .throw
  | trashed =>
    dsimp only
    split
    · exact narrows_done narrows_setTrashed
    · exact .throw
  | with_ =>
    dsimp only
    split
    · exact narrows_done (steady_givenPaths.narrows.bind fun _ _ => narrows_with_)
    · exact .throw
  | without => exact narrows_done narrows_without
  | withOnly =>
    dsimp only
    split
    · exact narrows_done (steady_givenPaths.narrows.bind fun _ _ =>
        Narrows.changeLoads.seq narrows_with_)
    · exact .throw
  | _ => cases aside

theorem narrows_chain_of_inner {calls : List Call}
    (h : ∀ c ∈ calls, Narrows J (inner c) fun answer => answer = .self) :
    Narrows J (chain inner calls) fun answer => answer = .self := by
  refine .foldlM rfl fun answer self c hc => ?_
  obtain rfl := self
  exact h c hc

theorem narrows_refine_of_inner {calls : List Call} {answers : Bool}
    (h : ∀ c ∈ calls, Narrows J (inner c) fun answer => answer = .self) :
    Narrows J (refine inner (.recipe calls answers)) fun answer => ∀ q, answer ≠ .other q := by
  refine (narrows_chain_of_inner h).bind fun answer self => .pure ?_
  obtain rfl := self
  cases answers with
  | true => exact fun _ h => by cases h
  | false => exact fun _ h => by cases h

theorem narrows_scope {name : String} {args : List Value}
    (own : ∀ id m, env.catalog.model? id = some m → ∀ s ∈ m.scopes, s.name = name →
      ∀ c ∈ Value.fillCalls args s.calls, Narrows J (inner c) fun answer => answer = .self) :
    Narrows J (scope env inner (.text name) args) fun answer => answer = .self := by
  refine narrows_model.bind fun m hm => ?_
  obtain ⟨id, hm⟩ := hm
  split
  · exact .throw
  · rename_i s hs
    have named : s.name = name := by simpa [Value.shown] using List.find?_some hs
    have calls := own id m hm s (List.mem_of_find?_eq_some hs) named
    refine (narrows_chain_of_inner calls).bind fun answer self => .pure ?_
    obtain rfl := self
    split
    · rfl
    · rfl

/-- A narrowing call narrows, by induction on how deep the calls that it makes nest. -/
theorem narrows_callUpTo (depth : Nat) : ∀ c, env.NarrowingCall J c →
    Narrows J (callUpTo env depth c) fun answer => answer = .self := by
  induction depth with
  | zero => exact fun _ _ => .throw
  | succ depth ih =>
    intro c h
    cases h with
    | where_ named joins allowed =>
      refine (steady_settleItems c.args).narrows.bind fun args _ => ?_
      refine (steady_settleNamed c.named).narrows.bind fun given _ => ?_
      rw [named]
      exact Steady.ofExcept.narrows.bind fun bound _ => narrows_perform joins allowed bound
    | aside named aside =>
      refine (steady_settleItems c.args).narrows.bind fun args _ => ?_
      refine (steady_settleNamed c.named).narrows.bind fun given _ => ?_
      rw [named]
      exact Steady.ofExcept.narrows.bind fun bound _ => narrows_perform_aside aside bound
    | tap own =>
      exact narrows_done (narrows_refine_of_inner fun c hc => ih c (own c hc)).discard
    | @when name expected condition calls answers named own =>
      -- A recipe is settled to itself: its calls are made below, not while arguments are settled.
      have settled : Narrows J (settleItems env (callUpTo env depth)
          [condition, .recipe calls answers]) fun args => ∃ v, args = [v, .recipe calls answers] :=
        (steady_settle condition).narrows.bind fun v _ => .pure ⟨v, rfl⟩
      refine settled.bind fun args hargs => ?_
      obtain ⟨v, rfl⟩ := hargs
      refine Narrows.bind (P := fun given => given = []) (.pure rfl) fun given none => ?_
      obtain rfl := none
      have named : Method.ofName? (Call.mk name [condition, .recipe calls answers] []).method =
        _ := named
      rw [named]
      change Narrows J (done (if env.truthy v == expected then
        discard (refine (callUpTo env depth) (.recipe calls answers)) else Pure.pure ())) _
      refine narrows_done ?_
      split
      · exact (narrows_refine_of_inner fun c hc => ih c (own c hc)).discard
      · exact .pure trivial
    | @scope name args own =>
      have settled : Narrows J (settleItems env (callUpTo env depth) (.text name :: args))
          fun given => ∃ rest, given = .text name :: rest :=
        Narrows.bind (P := fun v => v = .text name) (.pure rfl) fun v hv =>
          (steady_settleItems args).narrows.bind fun rest _ => .pure ⟨rest, by rw [hv]⟩
      refine settled.bind fun given hgiven => ?_
      obtain ⟨rest, rfl⟩ := hgiven
      refine Narrows.bind (P := fun given => given = []) (.pure rfl) fun given none => ?_
      obtain rfl := none
      change Narrows J (Build.scope env (callUpTo env depth) (.text name)
        (rest.map some).reduceOption) _
      exact narrows_scope fun id m hm s hs hname c hc => ih c (own id m hm s hs hname _ c hc)

theorem narrows_chain {calls : List Call} (h : ∀ c ∈ calls, env.NarrowingCall J c) :
    Narrows J (env.chain calls) fun answer => answer = .self :=
  narrows_chain_of_inner fun c hc => narrows_callUpTo callDepth c (h c hc)

theorem narrows_refineIfGiven {callback : Value} (h : env.NarrowingCallback J callback) :
    Narrows J (refineIfGiven env.call callback) fun _ => True := by
  cases h with
  | none => exact .pure trivial
  | recipe own =>
    exact (narrows_refine_of_inner fun c hc => narrows_callUpTo callDepth c (own c hc)).discard

end Build

end Relata
