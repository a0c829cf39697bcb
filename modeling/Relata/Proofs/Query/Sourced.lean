import Relata.Proofs.Query.Lasting

/-!
Whatever is asked of a query, its rows are those of the same model. Only conditions, columns and the
like can be changed by calls; a scope or a refinement that answers another query answers a copy of the
one that it was given. So the rows that are fetched for a relation are of the related model.
-/

namespace Relata

open Sql (Source Select)

/-- The rows of the query are those of the source. -/
def Query.Reads (source : Source) (q : Query) : Prop := q.select.source = source

/-- A query that is answered reads the source. -/
def Answer.Reads (source : Source) (answer : Answer) : Prop :=
  ∀ q, answer = .other q → q.Reads source

namespace Build

/-- No builder step can change what the query reads. -/
theorem lasting_reads (source : Source) : Query.Lasting (Query.Reads source) where
  select _ _ onward reads := onward.source.trans reads
  branches _ _ reads := reads
  request _ _ _ _ := Query.Blind.keeps_request fun _ _ reads => reads
  anew _ reads := reads
  remove _ _ reads := reads

variable {source : Source} {env : Env}

/-- A call leaves the source alone, and another query that it answers reads the same one. -/
theorem keepsSource_callUpTo (depth : Nat) :
    ∀ c, Keeps (Query.Reads source) (callUpTo env depth c) (Answer.Reads source) :=
  (lasting_reads source).keeps_callUpTo depth

end Build

/-- Queries that can be arrived at read the rows of their model. -/
theorem Query.Arises.reads {m : Model} {q : Query} (h : q.Arises m) : q.Reads m.source :=
  (Build.lasting_reads m.source).of_arises rfl h

/-- What outlasts the calls outlasts a refinement. -/
theorem Query.Lasting.of_refined {I : Query → Prop} (lasting : Query.Lasting I) {loader : Loader}
    {env : Env} {path : String} {q after : Query} (own : I q)
    (refined : loader.refined env q path = .ok after) : I after := by
  unfold Loader.refined at refined
  split at refined
  · exact Except.ok.inj refined ▸ own
  · exact Except.ok.inj refined ▸ own
  · next callback _ _ =>
    have keeps : Build.Keeps I (env.refine callback) (Answer.Of I) :=
      Query.Lasting.keeps_refine (lasting.keeps_callUpTo Build.callDepth) callback
    split at refined
    · next answered =>
      obtain rfl := Except.ok.inj refined
      exact (keeps q own _ _ answered).2 _ rfl
    · next answered =>
      obtain rfl := Except.ok.inj refined
      exact (keeps q own _ _ answered).1
    · cases refined

/-- The rows that are fetched for a relation are of the related model. -/
theorem Loader.reads_of_chunkQuery {loader : Loader} {env : Env} {d : Descriptor}
    {parent related : Model} {path : String} {keys : List Value} {q : Query}
    (found : env.relatedModel d = .ok related)
    (built : loader.chunkQuery env d parent path keys = .ok q) : q.Reads related.source := by
  obtain ⟨base, queried, refined⟩ := ok_of_bind built
  have lasting := Build.lasting_reads related.source
  exact lasting.of_refined (lasting.of_relationQuery rfl found queried) refined

end Relata
