import Relata.Proofs.Query.Steps
import Relata.Proofs.Sql.Placeholders

/-!
Calls whose names hold no placeholder and whose raw pieces have as many placeholders as values. What
a call gives is known once its arguments are settled, so the condition is on settled arguments, and
on the calls of its refinements and drafts as they would be made themselves.
-/

namespace Relata

open Sql (Unmarked marks)
open Sql.Fragment (placeholders)
open Build (Answers)

/-- The calls of a refinement satisfy `P`; what is no refinement makes none. -/
def Value.Refines (P : Call → Prop) (v : Value) : Prop :=
  ∀ calls answers, v = .recipe calls answers → ∀ c ∈ calls, P c

/-- The names by which a relation links tables hold no placeholder. -/
structure Descriptor.Unmarked (d : Descriptor) : Prop where
  foreignKey : Sql.Unmarked (written d.foreignKey)
  localKey : Sql.Unmarked (written d.localKey)
  ownerKey : Sql.Unmarked (written d.ownerKey)
  table : Sql.Unmarked (written d.table)
  foreignPivotKey : Sql.Unmarked (written d.foreignPivotKey)
  relatedPivotKey : Sql.Unmarked (written d.relatedPivotKey)
  parentKey : Sql.Unmarked (written d.parentKey)
  relatedKey : Sql.Unmarked (written d.relatedKey)
  typeColumn : Sql.Unmarked (written d.typeColumn)
  idColumn : Sql.Unmarked (written d.idColumn)
  firstKey : Sql.Unmarked (written d.firstKey)
  secondKey : Sql.Unmarked (written d.secondKey)
  secondLocalKey : Sql.Unmarked (written d.secondLocalKey)

namespace Build

variable (env : Env) (inner : Caller)

/-- The text has as many placeholders as values are given for it. -/
def RawMatched (text : String) (bindings : Value) : Prop :=
  ∀ given, Answers (givenBindings env inner bindings) given →
    ∀ items, Answers (bindingsOf given) items → placeholders text = items.length

/-- The column of a comparison is a group of calls with `P` or a name. An operator is a name if a
value comes with it; alone it is the value. -/
structure Compares (P : Call → Prop) (column : Value) (operator value : Option Value) : Prop where
  group : column.Refines P
  column : column.isCallable = false → Unmarked column.shown
  operator : value.isSome → ∀ o ∈ operator, Unmarked o.shown

end Build

/-- The names given to a method hold no placeholder, and the raw pieces have as many as values. `P`
is said of the calls below: with `false` of those that are made on the same query or give a branch,
and with `true` of those that only give conditions. Columns are replaced only if that is allowed. -/
def Method.Matched (env : Env) (inner : Caller) (P : Bool → Call → Prop) (replacing : Bool) :
    Method → List (Option Value) → Prop
  | .table, [some name] => Unmarked (env.listed name).shown
  | .select, values =>
    replacing = true ∧ marks (Value.flatten (Build.givenNames env values)) = 0
  | .addSelect, values => marks (Value.flatten (Build.givenNames env values)) = 0
  | .groupBy, values => marks (Value.flatten (Build.givenNames env values)) = 0
  | .selectRaw, [some text, some bindings] =>
    ∀ opened, Answers (Build.opened env inner text) opened →
      Build.RawMatched env inner (opened.asText?.getD "") bindings
  | .join _, names => ∀ v, some v ∈ names → Unmarked v.shown
  | .where_ _, [some column, operator, value] => Build.Compares (P true) column operator value
  | .whereNot, [some column, operator, value] => Build.Compares (P true) column operator value
  | .having _, [some column, operator, value] => Build.Compares (P true) column operator value
  | .whereLike _, [some column, some _] => Build.Compares (P true) column none none
  | .wherePart _, [some column, some operator, value] =>
    Unmarked (env.shown column) ∧ (value.isSome → Unmarked operator.shown)
  | .whereIn _ _, [some column, some _] => Unmarked column.shown
  | .whereNull _ _, [some column] => Unmarked column.shown
  | .whereBetween _ _, [some column, some _] => Unmarked column.shown
  | .whereEach _, [some columns, some operator, some _] =>
    (∀ opened, Answers (Build.opened env inner columns) opened →
      ∀ items, Answers (Build.itemsOf opened) items → ∀ v ∈ items, Unmarked v.shown) ∧
    Unmarked operator.shown
  | .whereRaw _, [some text, some bindings] =>
    ∀ s, text = .text s → Build.RawMatched env inner s bindings
  | .havingRaw, [some text, some bindings] =>
    ∀ s, text = .text s → Build.RawMatched env inner s bindings
  | .whereColumn _, [some first, some operator, second] =>
    Unmarked (env.shown first) ∧ Unmarked (env.shown operator) ∧
      ∀ v ∈ second, Unmarked (env.shown v)
  | .orderBy, [some column, some _] => Unmarked column.shown
  | .orderByDescending, [some column] => Unmarked column.shown
  | .byAge _, [some column] => Unmarked column.shown
  | .reorder, [some column, some _] => Unmarked column.shown
  | .union _, [some other] =>
    ∀ base calls, other = .draft base calls → ∀ c ∈ calls, P replacing c
  | .withWhereHas, [some _, some callback] => callback.Refines (P true)
  | .withCount, [some relations] => ∀ opened, Answers (Build.opened env inner relations) opened →
      ∀ entries, Answers (Build.counted opened) entries →
        ∀ e ∈ entries, Unmarked e.1.shown ∧ e.2.Refines (P true)
  | .whereHas _, [some _, some callback, some operator, some _] =>
    callback.Refines (P true) ∧ Unmarked (env.shown operator)
  | .has _, [some _, some operator, some _] => Unmarked (env.shown operator)
  | .doesntHave _, [some _, some callback] => callback.Refines (P true)
  | .whereRelation _, [some _, some column, operator, value] =>
    (Build.comparing column operator value).Refines (P true)
  | .whereHasMorph _, [some _, some _, some callback] => callback.Refines (P true)
  | .ofMany, [some column, some _] => Unmarked column.shown
  | .extremeOfMany _, [some column] => Unmarked column.shown
  | .setPivotSource, [some name, some label] => Unmarked name.shown ∧ Unmarked label.shown
  | .pivotAlias, [some label] => Unmarked label.shown
  | .withPivot, columns => ∀ v ∈ Build.givenNames env columns, Unmarked v.shown
  | .when _, [some _, some callback, some default] =>
    callback.Refines (P replacing) ∧ default.Refines (P replacing)
  | .tap, [some callback] => callback.Refines (P replacing)
  | .scope, some name :: args => ∀ id m, env.catalog.model? id = some m →
      ∀ s ∈ m.scopes, s.name = name.shown →
        ∀ c ∈ Value.fillCalls args.reduceOption s.calls, P replacing c
  | _, _ => True

/-- A call is matched if it gives its method what that asks for; calls nest at most `depth` deep. -/
def Build.MatchedUpTo (env : Env) : Nat → Bool → Call → Prop
  | 0, _, _ => True
  | depth + 1, replacing, c => ∀ args named,
      Answers (settleItems env (callUpTo env depth) c.args) args →
      Answers (settleNamed env (callUpTo env depth) c.named) named →
      ∀ m bound, Method.ofName? c.method = some m → m.bind (.mk c.method args named) = .ok bound →
        m.Matched env (callUpTo env depth) (MatchedUpTo env depth) replacing bound

namespace Env

/-- A call that may or may not replace selected columns, with all that it makes. -/
def MatchedCall (env : Env) (replacing : Bool) (c : Call) : Prop :=
  Build.MatchedUpTo env Build.callDepth replacing c

/-- The names of tables and relations hold no placeholder, and the refinements that relations bring
are matched. -/
structure Matched (env : Env) : Prop where
  tables : ∀ id m, env.catalog.model? id = some m → Unmarked m.table
  relations : ∀ id m, env.catalog.model? id = some m →
    ∀ name d, env.require m name = .ok d → d.Unmarked
  constraints : ∀ id m, env.catalog.model? id = some m →
    ∀ name d, env.require m name = .ok d →
      ∀ c ∈ d.constraints, ∀ depth, Build.MatchedUpTo env depth true c

end Env

end Relata
