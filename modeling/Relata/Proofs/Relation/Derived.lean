import Relata.Proofs.Relation.Composed
import Relata.Proofs.Schema.Heirs

/-!
The keys of a relation on a class that takes it over. A name left out derives from the class that
declared the relation or, for an entry of a static table, from the class that is asked; so an entry
that leaves the key out leads a class below to a column that its base does not use, and so does a
composition that begins with such an entry.
-/

namespace Relata

namespace Descriptor

/-- The descriptor with other keys in place of those whose names can derive from the parent. -/
def withKeys (d : Descriptor) (foreign table pivot first : Option String) : Descriptor :=
  match d.kind with
  | .hasOne | .hasMany => { d with foreignKey := foreign }
  | .belongsToMany => { d with table := table, foreignPivotKey := pivot }
  | .hasOneThrough | .hasManyThrough => { d with firstKey := first }
  | _ => d

/-- Both are the same but for keys whose names can derive from the parent. -/
def Alike (d other : Descriptor) : Prop :=
  ∃ foreign table pivot first, other = d.withKeys foreign table pivot first

/-- The key that parents are found by is left out, so that its name derives from the parent. -/
def omitsKey (d : Descriptor) : Bool :=
  match d.kind with
  | .hasOne | .hasMany => d.foreignKey.isNone
  | .belongsToMany => d.foreignPivotKey.isNone
  | .hasOneThrough | .hasManyThrough => d.firstKey.isNone
  | _ => false

/-- No name is left out that would derive from the parent. -/
def givesKeys (d : Descriptor) : Bool :=
  match d.kind with
  | .hasOne | .hasMany => d.foreignKey.isSome
  | .belongsToMany => d.table.isSome && d.foreignPivotKey.isSome
  | .hasOneThrough | .hasManyThrough => d.firstKey.isSome
  | _ => true

variable {d other : Descriptor}

theorem Alike.refl (d : Descriptor) : d.Alike d := by
  refine ⟨d.foreignKey, d.table, d.foreignPivotKey, d.firstKey, ?_⟩
  unfold withKeys
  split <;> rfl

theorem Alike.same_kind (h : d.Alike other) : other.kind = d.kind := by
  obtain ⟨_, _, _, _, rfl⟩ := h
  unfold withKeys
  split <;> rfl

theorem Alike.same_target (h : d.Alike other) : other.target = d.target := by
  obtain ⟨_, _, _, _, rfl⟩ := h
  unfold withKeys
  split <;> rfl

theorem Alike.same_localKey (h : d.Alike other) : other.localKey = d.localKey := by
  obtain ⟨_, _, _, _, rfl⟩ := h
  unfold withKeys
  split <;> rfl

/-- Whatever parents the defaults derive from, nothing else becomes different. -/
theorem Alike.withDefaults (h : d.Alike other) (parent parent' : String) (nameOf : Value → String)
    (name : String) :
    (d.withDefaults parent nameOf name).Alike (other.withDefaults parent' nameOf name) := by
  obtain ⟨foreign, table, pivot, first, rfl⟩ := h
  obtain ⟨kind⟩ := d
  cases kind
  case hasOne | hasMany => exact ⟨_, none, none, none, rfl⟩
  case belongsToMany => exact ⟨none, _, _, none, rfl⟩
  case hasOneThrough | hasManyThrough => exact ⟨none, none, none, _, rfl⟩
  all_goals exact ⟨none, none, none, none, rfl⟩

/-- Of a composition, no more than the first key can be different. -/
theorem Alike.eq_of_firstKey (h : d.Alike other)
    (through : d.kind = .hasOneThrough ∨ d.kind = .hasManyThrough)
    (same : other.firstKey = d.firstKey) : other = d := by
  obtain ⟨foreign, table, pivot, first, rfl⟩ := h
  obtain ⟨kind⟩ := d
  rcases through with rfl | rfl
  · obtain rfl : first = _ := same
    rfl
  · obtain rfl : first = _ := same
    rfl

/-- With all such names given the parent makes no difference. -/
theorem withDefaults_of_givesKeys (gives : d.givesKeys = true) (parent parent' : String)
    (nameOf : Value → String) (name : String) :
    d.withDefaults parent nameOf name = d.withDefaults parent' nameOf name := by
  obtain ⟨kind, _, foreign, _, _, table, pivot⟩ := d
  cases kind
  case hasOne | hasMany =>
    obtain ⟨key, rfl⟩ := Option.isSome_iff_exists.mp gives
    rfl
  case belongsToMany =>
    obtain ⟨tabled, keyed⟩ := Bool.and_eq_true_iff.mp gives
    obtain ⟨_, rfl⟩ := Option.isSome_iff_exists.mp tabled
    obtain ⟨_, rfl⟩ := Option.isSome_iff_exists.mp keyed
    rfl
  case hasOneThrough | hasManyThrough =>
    rename_i first _ _ _
    obtain ⟨_, rfl⟩ := Option.isSome_iff_exists.mp gives
    rfl
  all_goals rfl

theorem eq_of_derived {parent other : String}
    (same : s!"{parent}_id" = s!"{other}_id") : parent = other := by
  have letters := congrArg String.toList same
  simp only [String.toList_append, toString] at letters
  exact String.toList_inj.mp (List.append_cancel_right letters)

/-- With the key left out it is the same for two parents only if their names are, in small letters. -/
theorem withDefaults_of_omitsKey (omits : d.omitsKey = true) (parent parent' : String)
    (nameOf : Value → String) (name : String) :
    d.withDefaults parent nameOf name = d.withDefaults parent' nameOf name ↔
      Text.lowercase parent = Text.lowercase parent' := by
  refine ⟨fun same => ?_, fun same => by unfold withDefaults; rw [same]⟩
  obtain ⟨kind, _, foreign, _, _, _, pivot, _, _, _, _, _, _, _, _, _, _, _, first⟩ := d
  cases kind
  case hasOne | hasMany =>
    obtain rfl : foreign = none := Option.isNone_iff_eq_none.mp omits
    exact eq_of_derived (Option.some.inj (congrArg (·.foreignKey) same))
  case belongsToMany =>
    obtain rfl : pivot = none := Option.isNone_iff_eq_none.mp omits
    exact eq_of_derived (Option.some.inj (congrArg (·.foreignPivotKey) same))
  case hasOneThrough | hasManyThrough =>
    obtain rfl : first = none := Option.isNone_iff_eq_none.mp omits
    exact eq_of_derived (Option.some.inj (congrArg (·.firstKey) same))
  all_goals cases omits

end Descriptor

/-- What an entry of a static table describes by itself, unless it is a composition. -/
def StaticEntry.direct? : StaticEntry → Option (Except Error Descriptor)
  | .declaration d => match d.form with
    | .direct form => some (d.describe form).toExcept
    | .composed .. => none
  | .descriptor d => some (.ok d)
  | .value v => some (Descriptor.ofValue v).toExcept

namespace Lookup

variable {l : Lookup} {m heir : Model} {name : String}

/-- Both names resolve to nothing, both fail alike, or they resolve to the same but for keys whose
names can derive from the parent. -/
inductive Alike : Except Error (Option Descriptor) → Except Error (Option Descriptor) → Prop
  | failed {e : Error} : Alike (.error e) (.error e)
  | missing : Alike (.ok none) (.ok none)
  | found {d other : Descriptor} : d.Alike other → Alike (.ok (some d)) (.ok (some other))

/-- The same of relations that have to be there: both may miss another relation. -/
inductive AlikeOrMissing : Except Error Descriptor → Except Error Descriptor → Prop
  | failed {e : Error} : AlikeOrMissing (.error e) (.error e)
  | missing {e e' : Error} : isUndescribable e = true → isUndescribable e' = true →
    AlikeOrMissing (.error e) (.error e')
  | found {d other : Descriptor} : d.Alike other → AlikeOrMissing (.ok d) (.ok other)

theorem AlikeOrMissing.refl (x : Except Error Descriptor) : AlikeOrMissing x x := by
  cases x with
  | error e => exact .failed
  | ok d => exact .found (.refl d)

theorem AlikeOrMissing.bind {x y : Except Error Descriptor} (h : AlikeOrMissing x y)
    {f g : Descriptor → Except Error Descriptor}
    (rest : ∀ d other, d.Alike other → AlikeOrMissing (f d) (g other)) :
    AlikeOrMissing (x >>= f) (y >>= g) := by
  cases h with
  | failed => exact .failed
  | missing one other => exact .missing one other
  | found alike => exact rest _ _ alike

theorem AlikeOrMissing.after {α : Type} (x : Except Error α) {f g : α → Except Error Descriptor}
    (rest : ∀ a, AlikeOrMissing (f a) (g a)) : AlikeOrMissing (x >>= f) (x >>= g) := by
  cases x with
  | error e => exact .failed
  | ok a => exact rest a

/-- Completed with the names of any two owners, what is described alike is alike. -/
theorem AlikeOrMissing.named {x y : Except Error Descriptor} (h : AlikeOrMissing x y)
    (owner owner' : String) (nameOf : Value → String) (name : String) :
    Alike (named (·.withDefaults · nameOf name) (x.map fun d => some (d, owner)))
      (named (·.withDefaults · nameOf name) (y.map fun d => some (d, owner'))) := by
  cases h with
  | @failed e =>
    dsimp only [Except.map, Lookup.named]
    split
    · exact .missing
    · exact .failed
  | missing one other =>
    dsimp only [Except.map, Lookup.named]
    rw [one, other]
    exact .missing
  | found alike => exact .found (alike.withDefaults owner owner' nameOf name)

/-- Two classes have the same static table and find the same declarations under the same names, each
declared by a class that is there. -/
structure Shares (l : Lookup) (m heir : Model) : Prop where
  static : heir.static = m.static
  declared : ∀ name, heir.declared.lookup name = m.declared.lookup name
  known : ∀ name v, m.declared.lookup name = some v → ∃ owner, l.catalog.model? v.1 = some owner

/-- Two relations that are alike make alike compositions. -/
theorem alike_compose {one other : Descriptor} (alike : one.Alike other) (two : Descriptor)
    (between : Model) (calls : List Call) (missing : Error) :
    AlikeOrMissing (compose one two between calls missing)
      (compose other two between calls missing) := by
  unfold compose
  rw [alike.same_localKey]
  cases kind : two.kind with
  | belongsTo | hasOne | hasMany => exact .found ⟨none, none, none, _, rfl⟩
  | _ => exact .failed

theorem alike_upTo (h : l.Shares m heir) (depth : Nat) :
    (∀ d, AlikeOrMissing (l.describe depth m d) (l.describe depth heir d)) ∧
    (∀ name, Alike (l.resolveUpTo depth m name) (l.resolveUpTo depth heir name)) ∧
    ∀ name, AlikeOrMissing (l.requireUpTo depth m name) (l.requireUpTo depth heir name) := by
  induction depth with
  | zero =>
    refine ⟨fun d => ?_, fun name => ?_, fun name => ?_⟩
    · rw [describe, describe]
      exact .failed
    · rw [resolveUpTo, resolveUpTo]
      exact .failed
    · rw [requireUpTo, requireUpTo]
      exact .failed
  | succ depth ih =>
    obtain ⟨describes, resolves, requires⟩ := ih
    refine ⟨fun d => ?_, fun name => ?_, fun name => ?_⟩
    · rw [describe, describe]
      split
      · exact .refl _
      · refine (requires _).bind fun one other alike => ?_
        rw [alike.same_kind]
        split
        · exact .missing rfl rfl
        · have led : l.relatedModel other = l.relatedModel one := by
            rw [relatedModel, relatedModel, alike.same_target]
          rw [led]
          exact .after _ fun between => .after _ fun two => alike_compose alike two between d.calls _
    · cases name with
      | text name =>
        rw [resolveUpTo, resolveUpTo, h.static, h.declared]
        cases static : m.static.lookup name with
        | some entry =>
          cases entry with
          | declaration d => exact (describes d).named _ _ _ _
          | descriptor d => exact .found ((Descriptor.Alike.refl d).withDefaults _ _ _ _)
          | value v => exact (AlikeOrMissing.refl _).named _ _ _ _
        | none =>
          cases declared : m.declared.lookup name with
          | some entry => exact (describes entry.2).named _ _ _ _
          | none => exact .missing
      | _ => exact .missing
    · rw [requireUpTo, requireUpTo]
      have found := resolves name
      generalize l.resolveUpTo depth m name = x at found
      generalize l.resolveUpTo depth heir name = y at found
      cases found with
      | failed => exact .failed
      | missing => exact .missing rfl rfl
      | found alike => exact .found alike

/-- How a name of a class resolves on another class that takes its relations over. -/
structure HandsDown (l : Lookup) (m heir : Model) (name : String) : Prop where
  /-- It resolves to the same but for keys whose names can derive from the parent. -/
  alike : Alike (l.resolve m (.text name)) (l.resolve heir (.text name))
  /-- A declared relation keeps its keys. -/
  declared : ∀ owner d, m.static.lookup name = none → m.declared.lookup name = some (owner, d) →
    d.hops? = none → l.resolve heir (.text name) = l.resolve m (.text name)
  /-- An entry of the static table is completed with the name of the class that is asked. So it
  keeps its keys if it gives them; if it leaves out the key that parents are found by, then only
  where both classes have the same name, in small letters. -/
  listed : ∀ entry d, m.static.lookup name = some entry → entry.direct? = some (.ok d) →
    l.resolve m (.text name) = .ok (some (d.withDefaults m.name l.nameOf name)) ∧
    l.resolve heir (.text name) = .ok (some (d.withDefaults heir.name l.nameOf name)) ∧
    (d.givesKeys = true → l.resolve heir (.text name) = l.resolve m (.text name)) ∧
    (d.omitsKey = true → (l.resolve heir (.text name) = l.resolve m (.text name) ↔
      Text.lowercase heir.name = Text.lowercase m.name))
  /-- A composition keeps its keys if the relation that it begins with keeps its foreign key. -/
  composed : ∀ first final d, hops? m (.text name) = some (first, final) →
    l.resolve m (.text name) = .ok (some d) →
    ∃ one one' d', l.resolve m first = .ok (some one) ∧ l.resolve heir first = .ok (some one') ∧
      l.resolve heir (.text name) = .ok (some d') ∧ d.firstKey = one.foreignKey ∧
      d'.firstKey = one'.foreignKey ∧ (d' = d ↔ one'.foreignKey = one.foreignKey)

theorem Shares.same_hops (h : l.Shares m heir) (name : Value) : hops? heir name = hops? m name := by
  unfold hops? declaration?
  rw [h.static]
  cases name with
  | text name =>
    dsimp only
    rw [h.declared]
  | _ => rfl

/-- What a direct declaration describes does not depend on the class that is asked. -/
theorem describe_of_direct {d : Declaration} (direct : d.hops? = none) (depth : Nat) (m heir : Model) :
    l.describe depth heir d = l.describe depth m d := by
  cases depth with
  | zero => rw [describe, describe]
  | succ depth =>
    rw [describe, describe]
    unfold Declaration.hops? at direct
    cases form : d.form with
    | direct fields => rfl
    | composed first final =>
      rw [form] at direct
      cases direct

/-- An entry that is no composition is completed with the name of the class that is asked. -/
theorem resolve_of_direct? {entry : StaticEntry} {d : Descriptor}
    (listed : m.static.lookup name = some entry) (direct : entry.direct? = some (.ok d)) :
    l.resolve m (.text name) = .ok (some (d.withDefaults m.name l.nameOf name)) := by
  change l.resolveUpTo (599 + 1) m (.text name) = _
  rw [resolveUpTo, listed]
  cases entry with
  | declaration own =>
    dsimp only
    rw [describe]
    unfold StaticEntry.direct? at direct
    dsimp only at direct
    cases form : own.form with
    | direct fields =>
      rw [form] at direct
      dsimp only
      rw [Option.some.inj direct]
      rfl
    | composed first final =>
      rw [form] at direct
      cases direct
  | descriptor own =>
    cases direct
    rfl
  | value v =>
    dsimp only
    rw [Option.some.inj direct]
    rfl

theorem handsDown (h : l.Shares m heir) (name : String) : l.HandsDown m heir name := by
  have alike (name : Value) : Alike (l.resolve m name) (l.resolve heir name) :=
    (alike_upTo h compositionDepth).2.1 name
  refine ⟨alike _, fun owner d unlisted declared direct => ?_, fun entry d listed direct => ?_,
    fun first final d composed resolved => ?_⟩
  · obtain ⟨by_, known⟩ := h.known _ _ declared
    change l.resolveUpTo (599 + 1) heir (.text name) = l.resolveUpTo (599 + 1) m (.text name)
    rw [resolveUpTo, resolveUpTo, h.static, unlisted, h.declared, declared]
    dsimp only
    rw [known, describe_of_direct direct, Option.map_some, Option.getD_some, Option.getD_some]
  · have own := resolve_of_direct? (l := l) listed direct
    have taken := resolve_of_direct? (l := l) (h.static ▸ listed) direct
    refine ⟨own, taken, fun gives => ?_, fun omits => ?_⟩
    · rw [own, taken, Descriptor.withDefaults_of_givesKeys gives heir.name m.name]
    · rw [own, taken, Except.ok.injEq, Option.some.injEq,
        Descriptor.withDefaults_of_omitsKey omits]
  · have found := alike (.text name)
    rw [resolved] at found
    generalize resolved' : l.resolve heir (.text name) = y at found
    obtain - | - | @⟨_, d', alike'⟩ := found
    obtain ⟨one, two, between, calls, follows, composes, -⟩ := follows_of_resolve composed resolved
    obtain ⟨one', _, _, _, follows', composes', -⟩ :=
      follows_of_resolve ((h.same_hops _).trans composed) resolved'
    refine ⟨one, one', d', follows.first, follows'.first, rfl, composes.firstKey,
      composes'.firstKey, ?_⟩
    rw [← composes.firstKey, ← composes'.firstKey]
    exact ⟨fun same => by rw [same], alike'.eq_of_firstKey composes.isThrough⟩

end Lookup

/-- The relations of a class on the classes in line below it that add none, for all classes that
definitions make. Declared relations keep the keys of the base. An entry of a static table does if it
gives them, and otherwise takes the name of the class that is asked, which in a composition that
begins with the entry is the first key. -/
theorem heirs_keep_declared_keys {ds : List Definition} {l : Lookup}
    (made : ds.foldlM Catalog.define .empty = .ok l.catalog) {m heir : Model}
    (there : m ∈ l.catalog.models) (below : l.catalog.Descends ds m heir) (name : String) :
    l.HandsDown m heir name := by
  have tabled : l.catalog.Tabled ds := Catalog.Tabled.empty.foldlM made
  have inherits := tabled.settled.inherits
  have found := inherits.numbered.mem there
  obtain ⟨-, static, declared⟩ := tabled.descends there below
  refine Lookup.handsDown ⟨static, declared, fun name v entry => ?_⟩ name
  have entry' : l.catalog.entryOf (.model m.id) name = some v := by
    simpa [Catalog.entryOf, Catalog.tableOf, found] using entry
  have inside := (inherits.lt_of_mem (inherits.written_of_entryOf _ entry').1).1
  exact ⟨_, Array.getElem?_eq_getElem inside⟩

/-- Many of a model, with the key left out: as a record and as a declaration. -/
def unkeyedRecord (target : String) : Value :=
  .dict [(.text "kind", .text "has_many"), (.text "model", .text target)]

def unkeyed (target : String) : Declaration where
  form := .direct [("kind", .text "has_many"), ("model", .text target)]
  pivotColumns := []
  pivotAlias := none
  calls := []

/-- An author with declared notes and with posts in a static table, and a novelist who adds
nothing. -/
def writers : List Definition :=
  [{ Catalog.heir "Author" none [("notes", unkeyed "Note")] with
      static := some [("posts", .value (unkeyedRecord "Post"))] },
    Catalog.heir "Novelist" (some ["Author"]) []]

def writersLookup : Lookup := ⟨(writers.foldlM Catalog.define .empty).toOption.getD .empty, .empty⟩

def writer : Model :=
  have bound : 0 < writersLookup.catalog.models.size := by decide
  writersLookup.catalog.models[0]

def novelist : Model :=
  have bound : 1 < writersLookup.catalog.models.size := by decide
  writersLookup.catalog.models[1]

/-- The notes of a novelist are found by the key of an author, the posts by a key of their own. -/
theorem novelist_has_other_posts :
    writers.foldlM Catalog.define .empty = .ok writersLookup.catalog ∧
    writer ∈ writersLookup.catalog.models ∧
    writersLookup.catalog.Descends writers writer novelist ∧
    writersLookup.resolve novelist (.text "notes") = writersLookup.resolve writer (.text "notes") ∧
    ∃ d d', writersLookup.resolve writer (.text "posts") = .ok (some d) ∧
      writersLookup.resolve novelist (.text "posts") = .ok (some d') ∧
      d.foreignKey = some "author_id" ∧ d'.foreignKey = some "novelist_id" := by
  have made : writers.foldlM Catalog.define .empty = .ok writersLookup.catalog := rfl
  have there : writer ∈ writersLookup.catalog.models := Array.getElem_mem _
  have below : writersLookup.catalog.Descends writers writer novelist :=
    .heir .self (Array.getElem_mem _) ⟨rfl, _, rfl, rfl, rfl⟩
  have notes := heirs_keep_declared_keys made there below "notes"
  have posts := heirs_keep_declared_keys made there below "posts"
  obtain ⟨own, taken, -, -⟩ := posts.listed (.value (unkeyedRecord "Post")) _ rfl rfl
  exact ⟨made, there, below, notes.declared 0 (unkeyed "Note") rfl rfl rfl, _, _, own, taken, rfl, rfl⟩

end Relata
