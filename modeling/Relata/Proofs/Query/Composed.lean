import Relata.Proofs.Query.Chunk
import Relata.Proofs.Query.Morphed
import Relata.Proofs.Relation.Composed
import Relata.Proofs.Sql.Woven

/-!
The rows of a composition, next to those that its two relations give one after the other. The query
of the composition joins the table between, and asks of the rows there for the key and for nothing
else. Main statement: a pair of rows is one that the two relations give, if and only if the query of
the composition gives it and, besides, the row between meets what the first relation asks for and
the row behind it is the one that the second relation picks.
-/

namespace Relata

open Sql (Clause Condition Join LinkTest RowView Select Test)

namespace Sql

/-- The columns that the tables are joined by are equal in the row. -/
def RowView.Meets (row : RowView) (j : Join) : Prop :=
  j.kind = .inner ∧ j.operator = "=" ∧
    (LinkTest.equal j.first j.second).truth row (fun _ => none) = true

/-- The row, of the tables that the select joins, is one that it reads. -/
def RowView.Passes (row : RowView) (s : Select) : Prop :=
  (∀ j ∈ s.joins, row.Meets j) ∧ Condition.reading row.truth s.whereTokens = some true

end Sql

/-- What a relation asks for of the rows on `related`, whatever key they are linked to: that a row
is the one that is picked, if one is, that it meets the recorded calls, and that it is not deleted.
-/
def Env.restrictions (env : Env) (d : Descriptor) (related : Model) :
    Except Error (List Clause) := do
  let base ← related.query
  let plain ← Build.finish base (env.refining d .null)
  return (d.extremeTests related).map (.leaf .and) ++
    (plain.select.conditions ++ plain.select.deletionScope plain.select.from_)

namespace Loader

variable {self : Loader} {env : Env} {d : Descriptor} {parent : Model} {path : String}
  {keys : List Value} {q : Query}

/-- A row passes the query for a chunk if the tables are joined in it, if it is linked to a key, and
if it meets what the relation asks for. -/
theorem passes_chunk_iff (unrefined : self.callbackFor path = .null)
    (recorded : ∀ c ∈ d.constraints, env.NarrowingCall (· = .and) c)
    (built : self.chunkQuery env d parent path keys = .ok q) :
    ∃ related l own, env.relatedModel d = .ok related ∧
      env.linkage d parent related keys = .ok l ∧ env.restrictions d related = .ok own ∧
      (∀ c ∈ own, c.junction = .and) ∧
      ∀ row : RowView, row.Passes q.select ↔ (∀ j ∈ l.joins, row.Meets j) ∧
        l.tests.all row.truth = true ∧ Condition.allHold row.truth own = true := by
  obtain ⟨related, base, plain, l, hrelated, hbase, hplain, hl, joined, linked, beside⟩ :=
    chunkQuery_eq_ok built recorded (by rw [unrefined]; exact .none)
  have scope : q.select.deletionScope q.select.from_ =
      plain.select.deletionScope plain.select.from_ := by
    rw [beside.from_, Select.deletionScope, beside.source, beside.trashed, Select.deletionScope]
  have restricted : env.restrictions d related = .ok ((d.extremeTests related).map (.leaf .and) ++
      (plain.select.conditions ++ plain.select.deletionScope plain.select.from_)) := by
    rw [unrefined] at hplain
    rw [Env.restrictions, hbase]
    change (Build.finish base (env.refining d .null) >>= _) = _
    rw [hplain]
    rfl
  have only_and : ∀ c ∈ (d.extremeTests related).map (Condition.leaf .and) ++
      (plain.select.conditions ++ plain.select.deletionScope plain.select.from_),
      c.junction = .and :=
    List.forall_mem_append.mpr ⟨Condition.junction_of_leaves,
      List.forall_mem_append.mpr ⟨joined, Select.junction_of_deletionScope⟩⟩
  refine ⟨related, l, _, hrelated, hl, restricted, only_and, fun row => ?_⟩
  have some_ : l.tests ++ d.extremeTests related ≠ [] := by
    simp [Linkage.tests, Env.columns_ne_nil hl]
  have joins : q.select.joins = l.joins := linked.joins
  rw [RowView.Passes, joins, Select.reading_of_leaves some_ linked.conditions, scope,
    Condition.alternativeHolds_eq_false _ joined, ← Condition.allHold_eq_leadingHold _ joined,
    Condition.allHold_append _ Condition.junction_of_leaves (List.forall_mem_append.mpr
      ⟨joined, Select.junction_of_deletionScope⟩),
    Condition.allHold_append _ joined Select.junction_of_deletionScope, Condition.allHold_leaves]
  simp only [List.all_append, Bool.or_false, Option.some.injEq, Bool.and_eq_true, and_assoc]

end Loader

/-- The relation with further calls recorded on it. -/
def Descriptor.withCalls (d : Descriptor) (calls : List Call) : Descriptor :=
  { d with constraints := d.constraints ++ calls }

section

variable {env : Env} {m between related : Model} {d one two : Descriptor} {calls : List Call}
  {keys : List Value} {own : List Clause}

open Descriptor (written)

theorem linkage_of_ends (ends : d.Ends) :
    env.linkage d m related keys = .ok ⟨[(written d.relatedColumn, keys)], []⟩ := by
  unfold Env.linkage Descriptor.relatedColumn
  rcases ends with kind | kind | kind <;> rw [kind]

theorem Descriptor.Composes.extremeTests (composes : d.Composes one two between calls) :
    d.extremeTests related = [] := by
  unfold Descriptor.extremeTests Descriptor.picksOne
  rcases composes.isThrough with kind | kind <;> simp [kind]

/-- The model between is found again by its number. -/
theorem Descriptor.Composes.throughModel (composes : d.Composes one two between calls)
    (numbered : env.catalog.Numbered) (led : env.relatedModel one = .ok between) :
    env.throughModel d = .ok between := by
  have there := numbered.mem (Lookup.mem_of_relatedModel led)
  rw [Lookup.throughModel, Lookup.target, composes.through]
  change env.asModel (.model between.id) = .ok between
  rw [Lookup.asModel, there]

theorem Descriptor.Composes.linkage (composes : d.Composes one two between calls)
    (through : env.throughModel d = .ok between) :
    env.linkage d m related keys = .ok ⟨[(s!"{between.table}.{written one.foreignKey}", keys)],
      [⟨.inner, between.table, s!"{related.table}.{written two.relatedColumn}", "=",
        s!"{between.table}.{written two.parentAttribute}"⟩]⟩ := by
  rw [← composes.firstKey, ← composes.secondKey, ← composes.secondLocalKey]
  unfold Env.linkage
  rcases composes.isThrough with kind | kind <;> rw [kind, through] <;> rfl

/-- The composition asks for what its second relation asks for, with the further calls, except that
a row is the one that is picked. -/
theorem Descriptor.Composes.restrictions (composes : d.Composes one two between calls)
    (restricted : env.restrictions d related = .ok own) :
    env.restrictions (two.withCalls calls) related =
      .ok ((two.extremeTests related).map (.leaf .and) ++ own) := by
  have refining : env.refining (two.withCalls calls) .null = env.refining d .null := by
    rw [Env.refining, Env.refining, composes.constraints]
    rfl
  obtain ⟨base, hbase, restricted⟩ := ok_of_bind restricted
  obtain ⟨plain, hplain, restricted⟩ := ok_of_bind restricted
  rw [composes.extremeTests] at restricted
  cases restricted
  rw [Env.restrictions, hbase]
  change (Build.finish base (env.refining (two.withCalls calls) .null) >>= _) = _
  rw [refining, hplain]
  rfl

variable {self : Loader} {path : String} {key : Value} {others : List Value} {q q₂ : Query}

/-- A row passes the query for a relation that a composition may end with, if it is linked to a key
by a column of its own and meets what the relation asks for. -/
theorem passes_end_iff (ends : d.Ends) (led : env.relatedModel d = .ok related)
    (unrefined : self.callbackFor path = .null)
    (recorded : ∀ c ∈ d.constraints, env.NarrowingCall (· = .and) c)
    (built : self.chunkQuery env d m path keys = .ok q) :
    ∃ own, env.restrictions d related = .ok own ∧ ∀ row : RowView, row.Passes q.select ↔
      row.truth (.among false (written d.relatedColumn) keys) = true ∧
        Condition.allHold row.truth own = true := by
  obtain ⟨related', l, own, led', hl, restricted, -, passes⟩ :=
    Loader.passes_chunk_iff unrefined recorded built
  obtain rfl : related = related' := Except.ok.inj (led.symm.trans led')
  obtain rfl := Except.ok.inj (hl.symm.trans (linkage_of_ends ends))
  refine ⟨own, restricted, fun row => ?_⟩
  rw [passes]
  simp [Linkage.tests]

/-- A row of both tables passes the query for a composition if they are joined where the second
relation links them, if the row between is linked to a key by the first relation, and if the row
meets what the composition asks for. -/
theorem Descriptor.Composes.passes_iff (composes : d.Composes one two between calls)
    (through : env.throughModel d = .ok between) (led : env.relatedModel two = .ok related)
    (unrefined : self.callbackFor path = .null)
    (recorded : ∀ c ∈ d.constraints, env.NarrowingCall (· = .and) c)
    (built : self.chunkQuery env d m path keys = .ok q) :
    ∃ own, env.restrictions d related = .ok own ∧ (∀ c ∈ own, c.junction = .and) ∧
      ∀ row : RowView, row.Passes q.select ↔
        row.Meets ⟨.inner, between.table, s!"{related.table}.{written two.relatedColumn}", "=",
          s!"{between.table}.{written two.parentAttribute}"⟩ ∧
        row.truth (.among false s!"{between.table}.{written one.foreignKey}" keys) = true ∧
        Condition.allHold row.truth own = true := by
  obtain ⟨related', l, own, led', hl, restricted, only_and, passes⟩ :=
    Loader.passes_chunk_iff unrefined recorded built
  rw [Lookup.relatedModel, composes.target] at led'
  obtain rfl : related = related' := Except.ok.inj (led.symm.trans led')
  obtain rfl := Except.ok.inj (hl.symm.trans (composes.linkage through))
  refine ⟨own, restricted, only_and, fun row => ?_⟩
  rw [passes]
  simp [Linkage.tests]

/-- Restricting the columns fails only if the columns given are no list of any kind. -/
theorem exists_restrictColumns {table : String} {columns : Value} {q after : Query} {u : Unit}
    (run : Build.restrictColumns env two table columns q = .ok u after) (d : Descriptor)
    (name : String) (p : Query) :
    ∃ end_, Build.restrictColumns env d name columns p = .ok () end_ := by
  unfold Build.restrictColumns at run ⊢
  split at run
  · next given =>
    rw [if_pos given]
    obtain ⟨items, _, listed, -⟩ := Build.ok_of_bind run
    unfold Build.itemsOf at listed ⊢
    cases opened : (env.opened columns).items? with
    | none =>
      rw [opened] at listed
      cases listed
    | some items => exact ⟨_, rfl⟩
  · next none_ =>
    rw [if_neg none_]
    exact ⟨p, rfl⟩

theorem refined_of_unrefined (unrefined : self.callbackFor path = .null) (q : Query) :
    self.refined env q path = .ok q := by
  unfold Loader.callbackFor at unrefined
  unfold Loader.refined
  cases found : Value.lookup? (.text path) self.callbacks with
  | none => rfl
  | some callback =>
    rw [found] at unrefined
    obtain rfl : callback = .null := unrefined
    rfl

/-- A query is made of three steps on a new one, if they end well and no refinement is asked for. -/
theorem chunkQuery_of_run {base end_ : Query} (fixed : (d.kind == .morphTo) = false)
    (target : env.relatedModel d = .ok related) (hbase : related.query = .ok base)
    (unrefined : self.callbackFor path = .null)
    (run : (do
      Build.linkKeys env d m related keys true
      discard (env.chain d.constraints)
      Build.restrictColumns env d related.table (self.columnsFor path) : Build Unit) base =
        .ok () end_) :
    self.chunkQuery env d m path keys = .ok end_ := by
  rw [Loader.chunkQuery, Env.relationQuery, fixed, target]
  change related.query >>= _ >>= _ = _
  rw [hbase]
  change Build.finish base _ >>= _ = _
  rw [Build.finish, EStateM.run, run]
  exact refined_of_unrefined unrefined end_

/-- Linking the keys of a composition fails only if the table between is not named by a text. -/
theorem Descriptor.Composes.exists_linkKeys (composes : d.Composes one two between calls)
    (through : env.throughModel d = .ok between) {table : String}
    (named : between.tableName = .text table) (m related : Model) (keys : List Value)
    (base : Query) :
    ∃ linked, Build.linkKeys env d m related keys true base = .ok () linked := by
  unfold Build.linkKeys
  rcases composes.isThrough with kind | kind <;> rw [kind, through] <;>
    simp only [Build.ofExcept, pure_bind, named] <;> exact ⟨_, rfl⟩

/-- The query for the composition is made if the one for its second relation is, and if the table
between has a name to be joined by. -/
theorem Descriptor.Composes.exists_chunkQuery (composes : d.Composes one two between calls)
    (through : env.throughModel d = .ok between) {table : String}
    (named : between.tableName = .text table) (unrefined : self.callbackFor path = .null)
    (recorded : ∀ c ∈ d.constraints, env.NarrowingCall (· = .and) c)
    (built : self.chunkQuery env (two.withCalls calls) between path others = .ok q₂) :
    ∃ q, self.chunkQuery env d m path keys = .ok q := by
  obtain ⟨_, queried, -⟩ := ok_of_bind built
  unfold Env.relationQuery at queried
  dsimp only at queried
  split at queried
  · cases queried
  · obtain ⟨related, hrelated, queried⟩ := ok_of_bind queried
    obtain ⟨base, hbase, queried⟩ := ok_of_bind queried
    obtain ⟨_, run⟩ := Build.ok_of_finish queried
    obtain ⟨_, linked, linking, run⟩ := Build.ok_of_bind run
    obtain ⟨_, constrained, recording, restricting⟩ := Build.ok_of_bind run
    obtain ⟨-, -, -, beside⟩ := Build.linkKeys_eq_ok linking
    have target : env.relatedModel d = .ok related := by
      rw [Lookup.relatedModel, composes.target]
      exact hrelated
    obtain ⟨joined, joining⟩ := composes.exists_linkKeys through named m related keys base
    obtain ⟨-, -, -, beside'⟩ := Build.linkKeys_eq_ok joining
    have same : (two.withCalls calls).constraints = d.constraints := composes.constraints.symm
    rw [same] at recording
    obtain ⟨-, _, -, adds⟩ := (Build.narrows_chain recorded).discard _ _ _ recording
    obtain ⟨narrowed, again, -⟩ := adds joined (beside'.trans beside.symm)
    obtain ⟨end_, selecting⟩ := exists_restrictColumns restricting d related.table narrowed
    have fixed : (d.kind == .morphTo) = false := by
      rcases composes.isThrough with kind | kind <;> rw [kind] <;> rfl
    exact ⟨end_, chunkQuery_of_run fixed target hbase unrefined
      (Build.bind_eq_ok joining (Build.bind_eq_ok again selecting))⟩

/-- The row that a row of the table between and a row of the related one make together. It knows the
columns that link the two, and the one with the key of the parent, by their full names, and what is
asked for of the related row reads on it as on that row. -/
structure JoinedRow (one two : Descriptor) (between related : Model) (own : List Clause)
    (near far joined : RowView) : Prop where
  keyed : joined.value s!"{between.table}.{written one.foreignKey}" =
    near.value (written one.foreignKey)
  leading : joined.value s!"{between.table}.{written two.parentAttribute}" =
    near.value (written two.parentAttribute)
  led : joined.value s!"{related.table}.{written two.relatedColumn}" =
    far.value (written two.relatedColumn)
  equal : joined.equal = near.equal
  equal' : joined.equal = far.equal
  own : ∀ t ∈ Condition.leavesOf own, joined.truth t = far.truth t

namespace JoinedRow

variable {near far joined : RowView} (pair : JoinedRow one two between related own near far joined)
include pair

/-- The rows are joined where the second relation links them. -/
theorem meets_iff (held : near.value (written two.parentAttribute) = some key) :
    joined.Meets ⟨.inner, between.table, s!"{related.table}.{written two.relatedColumn}", "=",
        s!"{between.table}.{written two.parentAttribute}"⟩ ↔
      far.truth (.among false (written two.relatedColumn) [key]) = true := by
  have linked : (LinkTest.equal s!"{related.table}.{written two.relatedColumn}"
      s!"{between.table}.{written two.parentAttribute}").truth joined (fun _ => none) =
      far.truth (.among false (written two.relatedColumn) [key]) := by
    rw [far.among, LinkTest.truth, pair.led, pair.leading, held, pair.equal']
    cases far.value (written two.relatedColumn) <;> simp
  rw [RowView.Meets, linked]
  exact ⟨fun met => met.2.2, fun given => ⟨rfl, rfl, given⟩⟩

theorem truth_keyed :
    joined.truth (.among false s!"{between.table}.{written one.foreignKey}" keys) =
      near.truth (.among false (written one.foreignKey) keys) := by
  rw [joined.among, near.among, pair.keyed, pair.equal]

end JoinedRow

/-- What a composition is, for any models and aliases, next to the two relations that it follows. It
is resolved by the same attribute of the parent as the first relation and leads where the second one
leads, and it is single if that one is; so it is single exactly if both are, unless the first has
many and the second is single. Its query is made wherever that of the second relation is, if the
table between is named by a text. A pair of rows passes the queries of the two relations, whatever
the tables hold, if and only if it passes the query of the composition and, besides, the row between
meets what the first relation asks for of its rows and the other one is the row that the second
relation picks; so with nothing to be asked for and nothing to be picked the two agree. -/
theorem composition_joins (env : Env) {m : Model} {name first final : Value} {d : Descriptor}
    (numbered : env.catalog.Numbered) (composed : Lookup.hops? m name = some (first, final))
    (resolved : env.resolve m name = .ok (some d)) :
    ∃ one two between calls, env.Follows m first final one two between ∧
      (Lookup.declaration? m name).map (·.calls) = some calls ∧
      d.parentAttribute = one.parentAttribute ∧ d.target = two.target ∧
      d.kind.isSingle = two.kind.isSingle ∧
      ((d.kind.isSingle = true ↔ one.kind.isSingle = true ∧ two.kind.isSingle = true) ↔
        ¬ (one.kind = .hasMany ∧ two.kind.isSingle = true)) ∧
      ∀ {self : Loader} {path : String} {keys : List Value} {key : Value} {q₁ q₂ : Query},
        self.callbackFor path = .null →
        (∀ c ∈ one.constraints ++ d.constraints, env.NarrowingCall (· = .and) c) →
        self.chunkQuery env one m path keys = .ok q₁ →
        self.chunkQuery env (two.withCalls calls) between path [key] = .ok q₂ →
        (∀ table, between.tableName = .text table →
          ∃ q, self.chunkQuery env d m path keys = .ok q) ∧
        ∀ q, self.chunkQuery env d m path keys = .ok q →
          ∃ related own₁ own, env.relatedModel two = .ok related ∧
            env.restrictions one between = .ok own₁ ∧ env.restrictions d related = .ok own ∧
            ∀ near far joined : RowView, JoinedRow one two between related own near far joined →
              near.value (written two.parentAttribute) = some key →
              (near.Passes q₁.select ∧ far.Passes q₂.select ↔ joined.Passes q.select ∧
                Condition.allHold near.truth own₁ = true ∧
                (two.extremeTests related).all far.truth = true) := by
  obtain ⟨one, two, between, calls, follows, composes, declared⟩ :=
    Lookup.follows_of_resolve composed resolved
  have through := composes.throughModel numbered follows.led
  have single : d.kind.isSingle = two.kind.isSingle := by
    rw [composes.kind]
    cases two.kind.isSingle <;> rfl
  have attribute_ : d.parentAttribute = one.parentAttribute := by
    rw [follows.leads.parentAttribute, ← composes.localKey]
    unfold Descriptor.parentAttribute
    rcases composes.isThrough with kind | kind <;> rw [kind]
  refine ⟨one, two, between, calls, follows, declared, attribute_, composes.target, single, ?_,
    fun {self path keys key q₁ q₂} unrefined recorded hop hop' =>
      ⟨fun table named => ?_, fun q whole => ?_⟩⟩
  · rw [single]
    rcases follows.leads with kind | kind <;> rw [kind] <;> simp [RelationKind.isSingle]
  · exact composes.exists_chunkQuery through named unrefined
      (fun c hc => recorded c (List.mem_append_right _ hc)) hop'
  · obtain ⟨related, -, -, target, -⟩ := Loader.passes_chunk_iff unrefined
      (fun c hc => recorded c (List.mem_append_right _ (composes.constraints ▸ hc))) hop'
    obtain ⟨own₁, restricted₁, passes₁⟩ := passes_end_iff (.inr follows.leads) follows.led unrefined
      (fun c hc => recorded c (List.mem_append_left _ hc)) hop
    obtain ⟨own₂, restricted₂, passes₂⟩ := passes_end_iff (d := two.withCalls calls) follows.ends
      target unrefined
      (fun c hc => recorded c (List.mem_append_right _ (composes.constraints ▸ hc))) hop'
    obtain ⟨own, restricted, only_and, passes⟩ := composes.passes_iff through target unrefined
      (fun c hc => recorded c (List.mem_append_right _ hc)) whole
    obtain rfl := Except.ok.inj (restricted₂.symm.trans (composes.restrictions restricted))
    refine ⟨related, own₁, own, target, restricted₁, restricted,
      fun near far joined pair held => ?_⟩
    have ending : (two.withCalls calls).relatedColumn = two.relatedColumn := rfl
    rw [passes₁, passes₂, passes, pair.meets_iff held, pair.truth_keyed, ending,
      follows.leads.relatedColumn, Condition.allHold_append _ Condition.junction_of_leaves only_and,
      Condition.allHold_leaves, ← Condition.allHold_congr pair.own, Bool.and_eq_true]
    tauto

end

/-- Countries with those of their users that are active, users each with a team, and the teams of a
country. -/
def squads : List Definition :=
  [Catalog.heir "Team" none [],
    Catalog.heir "User" none [("team",
      ⟨.direct [("kind", .text "belongs_to"), ("model", .text "Team")], [], none, []⟩)],
    Catalog.heir "Country" none [
      ("users",
        { Catalog.many "User" "country_id" with
          calls := [.mk "where" [.text "active", .int 1] []] }),
      ("teams", ⟨.composed (.text "users") (.text "team"), [], none, []⟩)]]

def squadEnv : Env :=
  { plainEnv with catalog := (squads.foldlM Catalog.define .empty).toOption.getD .empty }

theorem defined_squads : squadEnv.catalog.Defined :=
  have made : squads.foldlM Catalog.define .empty = .ok squadEnv.catalog := rfl
  Catalog.Defined.empty.foldlM (by decide) made

def player : Model :=
  have bound : 1 < squadEnv.catalog.models.size := by decide
  squadEnv.catalog.models[1]

def nation : Model :=
  have bound : 2 < squadEnv.catalog.models.size := by decide
  squadEnv.catalog.models[2]

def usersRelation : Descriptor :=
  { (default : Descriptor) with
    kind := .hasMany
    target := .text "User"
    foreignKey := some "country_id"
    localKey := some "id"
    pivotAlias := "pivot"
    constraints := [.mk "where" [.text "active", .int 1] []] }

def teamRelation : Descriptor :=
  { (default : Descriptor) with
    kind := .belongsTo
    target := .text "Team"
    foreignKey := some "team_id"
    ownerKey := some "id"
    pivotAlias := "pivot" }

/-- The teams of a country, as the composition is resolved. -/
def teamsRelation : Descriptor :=
  { (default : Descriptor) with
    kind := .hasOneThrough
    target := .text "Team"
    localKey := some "id"
    pivotAlias := "pivot"
    through := .model 1
    firstKey := some "country_id"
    secondKey := some "id"
    secondLocalKey := some "team_id" }

/-- A user of the first country who is not active. -/
def idleUser : RowView := .ofValues fun column =>
  List.lookup column [("country_id", .int 1), ("team_id", .int 3), ("active", .int 0)]

def idleTeam : RowView := .ofValues fun column => List.lookup column [("id", .int 3)]

/-- The team joined with the user. -/
def idlePair : RowView := .ofValues fun column =>
  List.lookup column
    [("users.country_id", .int 1), ("users.team_id", .int 3), ("teams.id", .int 3)]

/-- A country has one team, though it has many users, and the team of a user who is not active is
among those that the composition gives. -/
theorem team_of_idle_user :
    squadEnv.resolve nation (.text "teams") = .ok (some teamsRelation) ∧
    teamsRelation.kind.isSingle = true ∧
    ∃ q₁ q₂ q,
      Loader.plainLoader.chunkQuery squadEnv usersRelation nation "teams" [.int 1] = .ok q₁ ∧
      Loader.plainLoader.chunkQuery squadEnv teamRelation player "teams" [.int 3] = .ok q₂ ∧
      Loader.plainLoader.chunkQuery squadEnv teamsRelation nation "teams" [.int 1] = .ok q ∧
      idlePair.Passes q.select ∧ ¬ (idleUser.Passes q₁.select ∧ idleTeam.Passes q₂.select) := by
  have resolved : squadEnv.resolve nation (.text "teams") = .ok (some teamsRelation) := rfl
  have composed : Lookup.hops? nation (.text "teams") = some (.text "users", .text "team") := rfl
  obtain ⟨one, two, between, calls, follows, declared, -, -, single, -, rows⟩ :=
    composition_joins squadEnv defined_squads.grounded.numbered composed resolved
  have users : squadEnv.resolve nation (.text "users") = .ok (some usersRelation) := rfl
  obtain rfl := Option.some.inj (Except.ok.inj (users.symm.trans follows.first))
  have led : squadEnv.relatedModel usersRelation = .ok player := rfl
  obtain rfl := Except.ok.inj (led.symm.trans follows.led)
  have team : squadEnv.resolve player (.text "team") = .ok (some teamRelation) := rfl
  obtain rfl := Option.some.inj (Except.ok.inj (team.symm.trans follows.final))
  obtain rfl : [] = calls := Option.some.inj declared
  have recorded : ∀ c ∈ usersRelation.constraints ++ teamsRelation.constraints,
      squadEnv.NarrowingCall (· = .and) c := by
    intro c hc
    obtain rfl := List.mem_singleton.mp hc
    exact .where_ (m := .where_ .and) rfl rfl rfl
  obtain ⟨q₁, hop⟩ : ∃ q₁, Loader.plainLoader.chunkQuery squadEnv usersRelation nation "teams"
      [.int 1] = .ok q₁ := ⟨_, rfl⟩
  obtain ⟨q₂, hop'⟩ : ∃ q₂, Loader.plainLoader.chunkQuery squadEnv teamRelation player "teams"
      [.int 3] = .ok q₂ := ⟨_, rfl⟩
  obtain ⟨q, whole, given⟩ : ∃ q, Loader.plainLoader.chunkQuery squadEnv teamsRelation nation
      "teams" [.int 1] = .ok q ∧ idlePair.Passes q.select := by
    refine ⟨_, rfl, fun j hj => ?_, rfl⟩
    obtain rfl := List.mem_singleton.mp hj
    exact ⟨rfl, rfl, rfl⟩
  obtain ⟨related, own₁, own, hrelated, restricted₁, restricted, agree⟩ :=
    (rows rfl recorded hop hop').2 q whole
  refine ⟨resolved, single.trans rfl, q₁, q₂, q, hop, hop', whole, given, fun both => ?_⟩
  have active : squadEnv.restrictions usersRelation player =
      .ok [.leaf .and (.compare "active" "=" (.int 1))] := rfl
  obtain rfl := Except.ok.inj (active.symm.trans restricted₁)
  cases hrelated
  have nothing : squadEnv.restrictions teamsRelation squadEnv.catalog.models[0] = .ok [] := rfl
  obtain rfl := Except.ok.inj (nothing.symm.trans restricted)
  have pair : JoinedRow usersRelation teamRelation player squadEnv.catalog.models[0] [] idleUser
      idleTeam idlePair := ⟨rfl, rfl, rfl, rfl, rfl, fun _ none_ => nomatch none_⟩
  have active := ((agree _ _ _ pair rfl).mp both).2.1
  cases active

end Relata
