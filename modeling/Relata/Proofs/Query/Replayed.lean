import Relata.Proofs.Query.Chunk

/-!
The calls that a relation records, replayed on its query. The query that is loaded is the one that
the replay began with: what a call answers is where the next call is made, but it is not what is
loaded in the end. So a call that answers another query, as a copy or a scope can, takes the calls
after it away from the rows.

Main statement: the replay fails where the same calls made directly fail, it comes to the same query
as long as every call answers the query that it is made on, and otherwise it comes to the query as the
first call that answers anything else leaves it.
-/

namespace Relata

/-- The methods that answer the query that they are called on, whatever they are given. -/
def Method.answersItself : Method → Bool
  | scope | clone | compile | statement | toSql | getBindings | toRawSql | eagerLoader
  | running _ => false
  | _ => true

/-- No other method is called. -/
def Call.answersItself (c : Call) : Bool := (Method.ofName? c.method).all Method.answersItself

namespace Build

variable {env : Env} {inner : Caller}

/-- What calls made one after the other answer, the first of them on the query and each other one on
what the call before it answered. A query that answers itself is answered as it then stands. -/
def called (inner : Caller) (q : Query) : List Call → Except Error Answer
  | [] => .ok (.other q)
  | c :: rest => match inner c q with
    | .ok .self after => called inner after rest
    | .ok (.other o) _ => called inner o rest
    | .ok (.value v) _ => if rest.isEmpty then .ok (.value v) else .error .noAttribute
    | .error e _ => .error e

/-- The query as such calls leave it. Those after one that answers anything else are made on that, and
leave the query alone. -/
def leftBy (inner : Caller) (q : Query) : List Call → Query
  | [] => q
  | c :: rest => match inner c q with
    | .ok .self after => leftBy inner after rest
    | .ok _ after | .error _ after => after

/-- Each of the calls made in turn on the query answers the query itself. -/
def staysOn (inner : Caller) (q : Query) : List Call → Prop
  | [] => True
  | c :: rest => ∃ after, inner c q = .ok .self after ∧ staysOn inner after rest

/-- The calls answer `a`, but one of them has taken the rest away from the query. -/
inductive Departs (inner : Caller) (q : Query) (calls : List Call) (a : Answer) : Prop
  | byCopy {before rest : List Call} {c : Call} (split : calls = before ++ c :: rest)
      (own : staysOn inner q before) (clone : Method.ofName? c.method = some .clone)
      (left : leftBy inner q calls = leftBy inner q before)
      (goes : called inner (leftBy inner q before) rest = .ok a) : Departs inner q calls a
  | byScope {before rest : List Call} {c : Call} {o : Query} (split : calls = before ++ c :: rest)
      (own : staysOn inner q before) (scope : Method.ofName? c.method = some .scope)
      (left : inner c (leftBy inner q before) = .ok (.other o) (leftBy inner q calls))
      (goes : called inner o rest = .ok a) : Departs inner q calls a
  | byValue {before : List Call} {c : Call} {v : Value} (split : calls = before ++ [c])
      (own : staysOn inner q before) (loose : c.answersItself = false)
      (left : inner c (leftBy inner q before) = .ok (.value v) (leftBy inner q calls))
      (ends : a = .value v) : Departs inner q calls a

/-- How a query that calls were replayed on stands to the same calls made directly. -/
structure Replays (inner : Caller) (q : Query) (calls : List Call) (built : Except Error Query) :
    Prop where
  fails : ∀ e, called inner q calls = .error e → built = .error e
  builds : ∀ a, called inner q calls = .ok a → built = .ok (leftBy inner q calls)
  /-- Without a copy, a scope or a method that looks something up, the same query is built. -/
  agrees : (∀ c ∈ calls, c.answersItself = true) → called inner q calls = built.map .other
  departs : ∀ a, called inner q calls = .ok a →
    a = .other (leftBy inner q calls) ∨ Departs inner q calls a

/-- A call on another query is answered by that one, and leaves this one alone. -/
theorem callOn_other (q o : Query) (c : Call) :
    callOn inner (.other o) c q = match inner c o with
      | .ok .self after => .ok (.other after) q
      | .ok answer _ => .ok answer q
      | .error e _ => .error e q := by
  cases run : inner c o with
  | ok answer after => cases answer <;> exact bind_eq_ok (on_eq_ok run q) rfl
  | error e after => exact bind_eq_error (on_eq_error run q) _

/-- A value that is no query answers to no call. -/
theorem calls_on_value (q : Query) (v : Value) (calls : List Call) :
    calls.foldlM (callOn inner) (.value v) q =
      if calls.isEmpty then .ok (.value v) q else .error .noAttribute q := by
  cases calls with
  | nil => rfl
  | cons c rest =>
    rw [List.foldlM_cons]
    exact bind_eq_error rfl _

/-- Calls on another query come to what they come to made directly, and leave this one alone. -/
theorem calls_on_other (q o : Query) (calls : List Call) :
    calls.foldlM (callOn inner) (.other o) q = match called inner o calls with
      | .ok a => .ok a q
      | .error e => .error e q := by
  induction calls generalizing o with
  | nil => rfl
  | cons c rest ih =>
    have first := @callOn_other inner q o c
    rw [List.foldlM_cons, called]
    cases run : inner c o with
    | error e after =>
      rw [run] at first
      exact bind_eq_error first _
    | ok answer after =>
      rw [run] at first
      cases answer with
      | self => exact bind_eq_of_ok first (ih after)
      | other o' => exact bind_eq_of_ok first (ih o')
      | value v =>
        refine bind_eq_of_ok first ((calls_on_value q v rest).trans ?_)
        cases rest <;> rfl

theorem finish_discard {α : Type} (q : Query) (step : Build α) :
    finish q (discard step) = match step q with
      | .ok _ after => .ok after
      | .error e _ => .error e := by
  cases run : step q with
  | ok a after => exact finish_eq_ok (ok_discard run)
  | error e after => exact finish_eq_error (error_discard run)

/-- The query that a replay leaves, by induction on the calls; the replay ends well where the calls
made directly do. -/
theorem finish_chain (q : Query) (calls : List Call) :
    finish q (discard (chain inner calls)) =
      (called inner q calls).map fun _ => leftBy inner q calls := by
  rw [finish_discard, chain]
  induction calls generalizing q with
  | nil => rfl
  | cons c rest ih =>
    rw [List.foldlM_cons, called, leftBy]
    cases run : callOn inner .self c q with
    | error e after =>
      rw [bind_eq_error run]
      rw [callOn] at run
      rw [run]
      rfl
    | ok answer after =>
      rw [bind_eq_of_ok run rfl]
      rw [callOn] at run
      rw [run]
      cases answer with
      | self => exact ih after
      | other o =>
        rw [calls_on_other]
        dsimp only
        cases called inner o rest <;> rfl
      | value v =>
        rw [calls_on_value]
        cases rest <;> rfl

theorem called_append {q : Query} {before : List Call} (own : staysOn inner q before)
    (rest : List Call) :
    called inner q (before ++ rest) = called inner (leftBy inner q before) rest := by
  induction before generalizing q with
  | nil => rfl
  | cons c before ih =>
    obtain ⟨after, run, own⟩ := own
    rw [List.cons_append, called, leftBy, run]
    exact ih own

theorem leftBy_append {q : Query} {before : List Call} (own : staysOn inner q before)
    (rest : List Call) :
    leftBy inner q (before ++ rest) = leftBy inner (leftBy inner q before) rest := by
  induction before generalizing q with
  | nil => rfl
  | cons c before ih =>
    obtain ⟨after, run, own⟩ := own
    rw [List.cons_append, leftBy, leftBy, run]
    exact ih own

/-- Calls stay with a query to the end, or up to one that answers anything else. -/
theorem staysOn_or_split {q : Query} {calls : List Call} {a : Answer}
    (direct : called inner q calls = .ok a) : staysOn inner q calls ∨
      ∃ before c rest answer after, calls = before ++ c :: rest ∧ staysOn inner q before ∧
        inner c (leftBy inner q before) = .ok answer after ∧ answer ≠ .self := by
  induction calls generalizing q with
  | nil => exact .inl trivial
  | cons c rest ih =>
    rw [called] at direct
    cases run : inner c q with
    | error e after =>
      rw [run] at direct
      cases direct
    | ok answer after =>
      rw [run] at direct
      cases answer with
      | self =>
        obtain own | ⟨before, c', rest', answer, after', rfl, own, run', other⟩ := ih direct
        · exact .inl ⟨after, run, own⟩
        · refine .inr ⟨c :: before, c', rest', answer, after', rfl, ⟨after, run, own⟩, ?_, other⟩
          rw [leftBy, run]
          exact run'
      | other o => exact .inr ⟨[], c, rest, _, after, rfl, trivial, run, by simp⟩
      | value v => exact .inr ⟨[], c, rest, _, after, rfl, trivial, run, by simp⟩

/-- Nothing need be known of a step for what comes after it. -/
theorem Keeps.any {α : Type} {x : Build α} : Keeps (fun _ => True) x fun _ => True :=
  fun _ _ _ _ _ => ⟨trivial, trivial⟩

theorem answer_of_done {step : Build Unit} : Keeps (fun _ => True) (done step) (· = .self) :=
  Keeps.any.seq (.pure rfl)

theorem answer_of_perform {m : Method} (own : m.answersItself = true)
    (args : List (Option Value)) :
    Keeps (fun _ => True) (perform env inner m args) (· = .self) := by
  unfold perform
  cases m
  case scope | clone | compile | statement | toSql | getBindings | toRawSql | eagerLoader
    | running => cases own
  case select | addSelect | groupBy | without | withPivot => exact answer_of_done
  case join =>
    dsimp only
    split
    · exact answer_of_done
    · exact answer_of_done
    · exact .throw
  all_goals
    dsimp only
    split
    · exact answer_of_done
    · exact .throw

/-- A method that looks something up answers a value. -/
theorem value_of_perform {m : Method} (loose : m.answersItself = false) (scope : m ≠ .scope)
    (clone : m ≠ .clone) (args : List (Option Value)) :
    Keeps (fun _ => True) (perform env inner m args) fun answer => ∃ v, answer = .value v := by
  unfold perform
  cases m
  case scope => exact absurd rfl scope
  case clone => exact absurd rfl clone
  case compile =>
    dsimp only
    split
    · exact Keeps.any.bind fun _ _ => Keeps.any.bind fun _ _ => .pure ⟨_, rfl⟩
    · exact .throw
  case statement | toSql | getBindings | toRawSql =>
    dsimp only
    split
    · exact Keeps.any.bind fun _ _ => .pure ⟨_, rfl⟩
    · exact .throw
  case eagerLoader | running => exact .pure ⟨_, rfl⟩
  all_goals cases loose

/-- A copy is the query as it stands, which stays as it is. -/
theorem clone_of_perform {args : List (Option Value)} {q after : Query} {answer : Answer}
    (run : perform env inner .clone args q = .ok answer after) : answer = .other q ∧ after = q := by
  unfold perform at run
  dsimp only at run
  split at run
  · cases run
    exact ⟨rfl, rfl⟩
  · cases run

/-- What a call can answer but the query itself. -/
theorem answer_of_call {depth : Nat} {c : Call} {q after : Query} {answer : Answer}
    (run : callUpTo env depth c q = .ok answer after) (other : answer ≠ .self) :
    c.answersItself = false ∧ (Method.ofName? c.method = some .clone ∧ answer = .other q ∧ after = q ∨
      Method.ofName? c.method = some .scope ∨ ∃ v, answer = .value v) := by
  cases depth with
  | zero => cases run
  | succ depth =>
    obtain ⟨args, q₁, settled, filled⟩ := ok_of_bind run
    obtain ⟨named, q₂, settled', made⟩ := ok_of_bind filled
    rw [(steady_settleItems c.args).same settled] at settled'
    rw [(steady_settleNamed c.named).same settled'] at made
    rw [Call.answersItself]
    cases known : Method.ofName? c.method with
    | none =>
      rw [known] at made
      cases made
    | some m =>
      rw [known] at made
      obtain ⟨bound, q₃, binds, performed⟩ := ok_of_bind made
      obtain ⟨-, rfl⟩ := ok_of_ofExcept binds
      have loose : m.answersItself = false := by
        by_contra own
        exact other (answer_of_perform (by simpa using own) bound q trivial answer after performed).2
      refine ⟨loose, ?_⟩
      by_cases clone : m = .clone
      · subst clone
        exact .inl ⟨rfl, clone_of_perform performed⟩
      by_cases scope : m = .scope
      · exact .inr (.inl (congrArg some scope))
      · exact .inr (.inr (value_of_perform loose scope clone bound q trivial answer after performed).2)

/-- Calls by their names that end well made directly leave the query where it then is, or depart
from it. -/
theorem departs_of_called {depth : Nat} {q : Query} {calls : List Call} {a : Answer}
    (direct : called (callUpTo env depth) q calls = .ok a) :
    a = .other (leftBy (callUpTo env depth) q calls) ∨ Departs (callUpTo env depth) q calls a := by
  obtain own | ⟨before, c, rest, answer, after, rfl, own, run, other⟩ := staysOn_or_split direct
  · have ends := called_append own []
    rw [List.append_nil] at ends
    exact .inl (Except.ok.inj (direct.symm.trans ends))
  have left : leftBy (callUpTo env depth) q (before ++ c :: rest) = after := by
    rw [leftBy_append own, leftBy, run]
    cases answer with
    | self => exact absurd rfl other
    | other o => rfl
    | value v => rfl
  rw [called_append own, called, run] at direct
  obtain ⟨loose, ⟨clone, rfl, rfl⟩ | way⟩ := answer_of_call run other
  · exact .inr (.byCopy rfl own clone left direct)
  cases answer with
  | self => exact absurd rfl other
  | other o =>
    obtain scope | ⟨v, absurd⟩ := way
    · exact .inr (.byScope rfl own scope (by rwa [left]) direct)
    · cases absurd
  | value v =>
    cases rest with
    | nil => exact .inr (.byValue rfl own loose (by rwa [left]) (Except.ok.inj direct).symm)
    | cons => cases direct

/-- The call that departs. -/
theorem Departs.call {q : Query} {calls : List Call} {a : Answer} (h : Departs inner q calls a) :
    ∃ c ∈ calls, c.answersItself = false := by
  cases h with
  | @byCopy _ _ c split _ named =>
    exact ⟨c, by simp [split], by rw [Call.answersItself, named]; rfl⟩
  | @byScope _ _ c _ split _ named =>
    exact ⟨c, by simp [split], by rw [Call.answersItself, named]; rfl⟩
  | @byValue _ c _ split _ loose => exact ⟨c, by simp [split], loose⟩

theorem replays (env : Env) (q : Query) (calls : List Call) :
    Replays env.call q calls (finish q (discard (env.chain calls))) := by
  have built : finish q (discard (env.chain calls)) = _ := finish_chain q calls
  have departs (a : Answer) (direct : called env.call q calls = .ok a) :
      a = .other (leftBy env.call q calls) ∨ Departs env.call q calls a := departs_of_called direct
  refine ⟨fun e failed => ?_, fun a direct => ?_, fun own => ?_, departs⟩
  · exact built.trans (by rw [failed]; rfl)
  · exact built.trans (by rw [direct]; rfl)
  refine Eq.trans ?_ (congrArg _ built.symm)
  cases direct : called env.call q calls with
  | error e => rfl
  | ok a =>
    obtain rfl | left := departs a direct
    · rfl
    · obtain ⟨c, among, loose⟩ := left.call
      rw [own c among] at loose
      cases loose

/-- What two steps make of a query, the second makes of what the first does. -/
theorem finish_seq {α β : Type} (q : Query) (x : Build α) (y : Build β) :
    finish q (do let _ ← x; y) = finish q x >>= fun after => finish after y := by
  cases run : x q with
  | ok a after =>
    rw [finish_eq_ok run, finish, EStateM.run, bind_eq_of_ok run rfl]
    rfl
  | error e after =>
    rw [finish_eq_error run, finish_eq_error (bind_eq_error run _)]
    rfl

end Build

/-- The relation without the calls that it records. -/
def Descriptor.bare (d : Descriptor) : Descriptor := { d with constraints := [] }

open Build (Replays finish)

theorem Env.relationQuery_eq_replay {env : Env} {d : Descriptor} {columns : Value}
    (whole : env.truthy columns = false) (parent : Model) (keys : List Value) (tagKeys : Bool) :
    env.relationQuery d parent keys columns tagKeys =
      env.relationQuery d.bare parent keys columns tagKeys >>= fun base =>
        finish base (discard (env.chain d.constraints)) := by
  have whole' (d : Descriptor) (table : String) :
      Build.restrictColumns env d table columns = pure () := by
    rw [Build.restrictColumns, whole]
    rfl
  have kept (q : Query) : finish q (pure ()) = pure q := rfl
  have bare (q : Query) : finish q (discard (env.chain d.bare.constraints)) = pure q := rfl
  have linked (related : Model) : Build.linkKeys env d.bare parent related keys tagKeys =
      Build.linkKeys env d parent related keys tagKeys := rfl
  have related : env.relatedModel d.bare = env.relatedModel d := rfl
  have kind : d.bare.kind = d.kind := rfl
  unfold relationQuery
  simp only [whole', Build.finish_seq, kept, bare, linked, related, kind, bind_pure]
  split
  · rfl
  · simp only [bind_assoc]

/-- The loader without the refinements of paths. -/
def Loader.plain (self : Loader) : Loader := { self with callbacks := [] }

theorem Loader.targetQuery_eq_replay {self : Loader} {env : Env} {path : String}
    (whole : env.truthy (self.columnsFor path) = false) (d : Descriptor) (m : Model)
    (keys : List Value) :
    self.targetQuery env d m path keys =
      self.plain.targetQuery env d.bare m path keys >>= fun base =>
        finish base (discard (env.chain d.constraints)) >>= fun q => self.refined env q path := by
  have kept (q : Query) : finish q (pure ()) = pure q := rfl
  have bare (q : Query) : finish q (discard (env.chain d.bare.constraints)) = pure q := rfl
  have columns : self.plain.columnsFor path = self.columnsFor path := rfl
  have unrefined (q : Query) : self.plain.refined env q path = pure q := rfl
  unfold targetQuery
  simp only [columns, whole, Bool.false_eq_true, if_false, Build.finish_seq, kept, bare, unrefined,
    bind_pure, bind_assoc]

/-- The query loaded for a relation, and that for the targets of rows, are the queries that their
recorded calls were replayed on. The replay fails where the calls made directly on the query without
them fail. It comes to the same query if all of them are calls that answer the query itself, and
otherwise it can lack what comes after a copy, after a scope that answers another query, or it is a
query though the last call answers a value. -/
theorem recorded_calls_replay_on_one_query (env : Env) (d : Descriptor) :
    (∀ parent keys columns tagKeys, env.truthy columns = false →
      match env.relationQuery d.bare parent keys columns tagKeys with
      | .ok base => Replays env.call base d.constraints
          (env.relationQuery d parent keys columns tagKeys)
      | .error e => env.relationQuery d parent keys columns tagKeys = .error e) ∧
    ∀ (self : Loader) m path keys, env.truthy (self.columnsFor path) = false →
      match self.plain.targetQuery env d.bare m path keys with
      | .ok base => ∃ built, Replays env.call base d.constraints built ∧
          self.targetQuery env d m path keys = built >>= fun q => self.refined env q path
      | .error e => self.targetQuery env d m path keys = .error e := by
  refine ⟨fun parent keys columns tagKeys whole => ?_, fun self m path keys whole => ?_⟩
  · have replay := Env.relationQuery_eq_replay (d := d) whole parent keys tagKeys
    cases base : env.relationQuery d.bare parent keys columns tagKeys with
    | error e => rwa [base] at replay
    | ok base' =>
      rw [base] at replay
      exact replay ▸ Build.replays env base' d.constraints
  · have replay := self.targetQuery_eq_replay whole d m keys
    cases base : self.plain.targetQuery env d.bare m path keys with
    | error e => rwa [base] at replay
    | ok base' =>
      rw [base] at replay
      exact ⟨_, Build.replays env base' d.constraints, replay⟩

/-- Calls that look for public posts only on a copy. -/
def copying : List Call :=
  [.mk "where" [.text "draft", .int 0] [], .mk "clone" [] [],
    .mk "where" [.text "public", .int 1] []]

/-- The posts that calls look for besides the first test, up to the copy and after it. -/
def postsOfCopying (first : Sql.Test) (after : List Sql.Clause) : Query :=
  Loader.postsWith (.leaf .and first :: .leaf .and (.compare "draft" "=" (.int 0)) :: after)

/-- Posts of authors, and posts as what something is about, that are public only on a copy: the query
that is loaded looks for drafts alone, and that is another statement. -/
theorem public_only_on_a_copy :
    (plainEnv.relationQuery { Loader.publishedRelation with constraints := copying } plainPost
        [.int 1, .int 2] .null true =
      .ok (postsOfCopying (.among false "author_id" [.int 1, .int 2]) []) ∧
    Loader.plainLoader.targetQuery plainEnv
        { (default : Descriptor) with kind := .morphTo, constraints := copying } plainPost "subject"
        [.int 5] =
      .ok (postsOfCopying (.among false "posts.id" [.int 5]) [])) ∧
    ∀ first : Sql.Test,
      Build.called plainEnv.call (Loader.postsWith [.leaf .and first]) copying =
        .ok (.other (postsOfCopying first [.leaf .and (.compare "public" "=" (.int 1))])) ∧
      (postsOfCopying first []).statement ≠
        (postsOfCopying first [.leaf .and (.compare "public" "=" (.int 1))]).statement := by
  have direct (first : Sql.Test) :
      Build.called plainEnv.call (Loader.postsWith [.leaf .and first]) copying =
        .ok (.other (postsOfCopying first [.leaf .and (.compare "public" "=" (.int 1))])) := rfl
  obtain ⟨related, -⟩ := recorded_calls_replay_on_one_query plainEnv
    { Loader.publishedRelation with constraints := copying }
  obtain ⟨-, targets⟩ := recorded_calls_replay_on_one_query plainEnv
    { (default : Descriptor) with kind := .morphTo, constraints := copying }
  refine ⟨⟨?_, ?_⟩, fun first => ⟨direct first, fun same => ?_⟩⟩
  · exact (related plainPost [.int 1, .int 2] .null true rfl).builds _ (direct _)
  · obtain ⟨built, replays, same⟩ := targets Loader.plainLoader plainPost "subject" [.int 5] rfl
    rw [same, replays.builds _ (direct _)]
    rfl
  · have conditions := congrArg (·.select.conditions.length) same
    cases conditions

end Relata
