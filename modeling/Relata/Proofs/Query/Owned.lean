import Relata.Proofs.Query.Negated

/-!
The relation by which rows belong to an object, where it is not named. All relations of the model
are gone through, and the one that leads to the class of the object is taken if there is just one.
On the way each of them has to be described, and each by which rows belong to something has to have
a target that is known; the first for which this fails ends the search, whatever it leads to. Main
statement: a filter on an object without the name of a relation is the same as with it exactly if
one relation alone leads to the class and none is at fault; where none is at fault it fails for no
other reason, and where one is, it fails for that.
-/

namespace Relata

namespace Env

variable {env : Env} {m : Model} {name : String} {e : Error}

/-- Why the search for a relation to an owner ends at this one, if it does: it cannot be described,
or rows belong by it to something unknown. -/
def fault? (env : Env) (m : Model) (name : String) : Option Error :=
  match env.require m (.text name) with
  | .error e => some e
  | .ok d =>
    if d.kind = .belongsTo then
      match env.relatedModel d with
      | .error e => some e
      | .ok _ => none
    else none

/-- Whether rows of the model belong by the relation to objects of the class `owner`. -/
def leadsTo (env : Env) (owner : ModelId) (m : Model) (name : String) : Bool :=
  match env.require m (.text name) with
  | .error _ => false
  | .ok d => d.kind == .belongsTo && (match env.relatedModel d with
    | .error _ => false
    | .ok target => target.id == owner)

theorem leadsTo_iff {owner : ModelId} : env.leadsTo owner m name = true ↔
    ∃ d target, env.require m (.text name) = .ok d ∧ d.kind = .belongsTo ∧
      env.relatedModel d = .ok target ∧ target.id = owner := by
  unfold leadsTo
  cases env.require m (.text name) with
  | error e => simp
  | ok d => cases found : env.relatedModel d <;> simp [found]

/-- The object has the key that each relation to its class asks of it. -/
def Keyed (env : Env) (m : Model) (owner : ModelId) (id : ObjectId) : Prop :=
  ∀ name ∈ m.relationNames, ∀ d target, env.require m (.text name) = .ok d →
    d.kind = .belongsTo → env.relatedModel d = .ok target → target.id = owner →
      ∃ v, env.glimpse (.object id) (Descriptor.written d.ownerKey) = .ok (.value v) ∧
        v.isNull = false

end Env

namespace Build

variable {env : Env} {q : Query} {m owner : Model} {name : String} {id : ObjectId}

/-- A loop that reads goes through its items until one fails, and else keeps those it is to keep. -/
theorem filterM_eq {α : Type} {f : α → Build Bool} {fault : α → Option Error} {keep : α → Bool}
    (h : ∀ a, f a q = (fault a).elim (.ok (keep a) q) (.error · q)) (items : List α) :
    items.filterM f q = (items.findSome? fault).elim (.ok (items.filter keep) q) (.error · q) := by
  have aux : ∀ rest found : List α, rest.filterAuxM f found q =
      (rest.findSome? fault).elim (.ok ((rest.filter keep).reverse ++ found) q) (.error · q) := by
    intro rest
    induction rest with
    | nil => exact fun _ => rfl
    | cons a rest ih =>
      intro found
      have first := h a
      cases faulty : fault a with
      | some e =>
        rw [faulty] at first
        rw [List.findSome?_cons, faulty]
        exact bind_eq_error first _
      | none =>
        rw [faulty] at first
        rw [List.findSome?_cons, faulty]
        refine bind_eq_of_ok first ((ih _).trans ?_)
        cases kept : keep a <;> simp [kept]
  have run := aux items []
  cases stopped : items.findSome? fault with
  | some e =>
    rw [stopped] at run
    exact bind_eq_error run _
  | none =>
    rw [stopped] at run
    rw [List.append_nil] at run
    exact bind_eq_of_ok run (congrArg (EStateM.Result.ok · q) (List.reverse_reverse _))

theorem require_eq (known : env.catalog.model? q.select.source.model = some m) (relation : Value) :
    require env relation q = ofExcept (env.require m relation) q :=
  bind_eq_of_ok (model_eq_ok known) rfl

/-- The search for the relation to an owner, as it ends. -/
theorem inferOwner_eq (known : env.catalog.model? q.select.source.model = some m)
    (object : env.modelOfValue? (.object id) = some owner) :
    inferOwner env (.object id) q =
      match m.relationNames.findSome? (env.fault? m) with
      | some e => .error e q
      | none => match m.relationNames.filter (env.leadsTo owner.id m) with
        | [name] => .ok name q
        | _ => .error (.relationNotFound m.name (Text.lowercase owner.name)) q := by
  have called : env.className (.object id) = owner.name := by
    change ((env.object? id).bind env.modelOf?).elim "object" (·.name) = owner.name
    rw [show (env.object? id).bind env.modelOf? = some owner from object]
    rfl
  let leads (name : String) : Build Bool := do
    let d ← require env (.text name)
    if d.kind != .belongsTo then return false
    return some (← ofExcept (env.relatedModel d)).id == (env.modelOfValue? (.object id)).map (·.id)
  have asked (name : String) : leads name q =
      (env.fault? m name).elim (.ok (env.leadsTo owner.id m name) q) (.error · q) := by
    unfold Env.fault? Env.leadsTo
    have first := require_eq known (.text name)
    cases described : env.require m (.text name) with
    | error e =>
      rw [described] at first
      exact bind_eq_error first _
    | ok d =>
      rw [described] at first
      refine bind_eq_of_ok first ?_
      by_cases belongs : d.kind = .belongsTo
      · simp only [belongs, object, Option.map_some, if_true]
        cases target : env.relatedModel d with
        | error e => rfl
        | ok target' => exact congrArg (EStateM.Result.ok · q) (by simp)
      · have own : (d.kind == .belongsTo) = false := by simp [belongs]
        have other : (d.kind != .belongsTo) = true := by simp [belongs]
        simp only [other, own, belongs, if_true, if_false]
        rfl
  have loop := filterM_eq asked m.relationNames
  refine bind_eq_of_ok (model_eq_ok known) ?_
  cases stopped : m.relationNames.findSome? (env.fault? m) with
  | some e =>
    rw [stopped] at loop
    exact bind_eq_error loop _
  | none =>
    rw [stopped] at loop
    refine bind_eq_of_ok loop ?_
    rw [called]
    generalize m.relationNames.filter (env.leadsTo owner.id m) = candidates
    match candidates with
    | [] => rfl
    | [_] => rfl
    | _ :: _ :: _ => rfl

/-- On one object the filter is that of the relation that is found for it. -/
theorem whereBelongsTo_null (found : inferOwner env (.object id) q = .ok name q) :
    whereBelongsTo env (.object id) .null q = whereBelongsTo env (.object id) (.text name) q := by
  have text : (Functor.map Value.text (inferOwner env (.object id)) : Build Value) q =
      .ok (.text name) q := by
    change EStateM.map _ _ q = _
    rw [EStateM.map, found]
  exact (bind_eq_of_ok text rfl).trans rfl

theorem whereBelongsTo_null_of_error {e : Error}
    (failed : inferOwner env (.object id) q = .error e q) :
    whereBelongsTo env (.object id) .null q = .error e q := by
  have text : (Functor.map Value.text (inferOwner env (.object id)) : Build Value) q =
      .error e q := by
    change EStateM.map _ _ q = _
    rw [EStateM.map, failed]
  exact bind_eq_error text _

/-- With a relation named, the filter compares the key that refers to the owner. -/
theorem whereBelongsTo_text (known : env.catalog.model? q.select.source.model = some m)
    {d : Descriptor} (declared : env.require m (.text name) = .ok d) (belongs : d.kind = .belongsTo)
    {v : Value} (key : env.glimpse (.object id) (Descriptor.written d.ownerKey) = .ok (.value v))
    (given : v.isNull = false) :
    whereBelongsTo env (.object id) (.text name) q =
      .ok () (withCondition q (.leaf .and (.compare (Descriptor.written d.foreignKey) "=" v))) := by
  have one : (whereBelongsTo env (.object id) (.text name)) q =
      whereOwned env false [.object id] (.text name) q := rfl
  have first := require_eq known (.text name)
  rw [declared] at first
  have has : attributeOf env (.object id) (Descriptor.written d.ownerKey) q = .ok v q :=
    bind_eq_of_ok (ofExcept_eq_ok key q) rfl
  have keys : [Value.object id].mapM
      (fun item => attributeOf env item (Descriptor.written d.ownerKey)) q = .ok [v] q := by
    rw [List.mapM_cons, List.mapM_nil]
    exact bind_eq_of_ok has rfl
  rw [one, whereOwned]
  refine bind_eq_of_ok first ?_
  simp only [belongs]
  refine bind_eq_of_ok keys ?_
  simp only [given, List.filter_cons, List.filter_nil, Bool.not_false, if_true]
  have equal : comparison .and (.text (Descriptor.written d.foreignKey)) (some v) none =
      comparison .and (.text (Descriptor.written d.foreignKey)) (some (.text "=")) (some v) := rfl
  rw [equal, ← Sql.Test.comparing_given given]
  exact addCondition_comparison "=" v

/-- Without the name of a relation, a filter on an object that has the key ends well exactly if no
relation of the model is at fault and one alone leads to the class of the object. It is then the
filter by that relation, a comparison of the key. Where no relation is at fault and none or several
lead there, no relation is found; where one is at fault, the first of them is what it fails for,
whatever the others are. -/
theorem owner_inferred_unless_at_fault
    (known : env.catalog.model? q.select.source.model = some m)
    (object : env.modelOfValue? (.object id) = some owner) (keyed : env.Keyed m owner.id id) :
    ((∃ after, whereBelongsTo env (.object id) .null q = .ok () after) ↔
      (∀ name ∈ m.relationNames, env.fault? m name = none) ∧
        ∃ name, m.relationNames.filter (env.leadsTo owner.id m) = [name]) ∧
    ((∀ name ∈ m.relationNames, env.fault? m name = none) →
      (∀ name, m.relationNames.filter (env.leadsTo owner.id m) = [name] →
        whereBelongsTo env (.object id) .null q =
          whereBelongsTo env (.object id) (.text name) q ∧
        ∃ d v, env.require m (.text name) = .ok d ∧
          env.glimpse (.object id) (Descriptor.written d.ownerKey) = .ok (.value v) ∧
          whereBelongsTo env (.object id) (.text name) q =
            .ok () (withCondition q
              (.leaf .and (.compare (Descriptor.written d.foreignKey) "=" v)))) ∧
      ((∀ name, m.relationNames.filter (env.leadsTo owner.id m) ≠ [name]) →
        whereBelongsTo env (.object id) .null q =
          .error (.relationNotFound m.name (Text.lowercase owner.name)) q)) ∧
    ∀ before name after e, m.relationNames = before ++ name :: after →
      (∀ earlier ∈ before, env.fault? m earlier = none) → env.fault? m name = some e →
        whereBelongsTo env (.object id) .null q = .error e q := by
  have search := inferOwner_eq known object
  have named : ∀ name, m.relationNames.filter (env.leadsTo owner.id m) = [name] →
      ∃ d v, env.require m (.text name) = .ok d ∧
        env.glimpse (.object id) (Descriptor.written d.ownerKey) = .ok (.value v) ∧
        whereBelongsTo env (.object id) (.text name) q = .ok () (withCondition q
          (.leaf .and (.compare (Descriptor.written d.foreignKey) "=" v))) := by
    intro name only
    have there : name ∈ m.relationNames.filter (env.leadsTo owner.id m) := by simp [only]
    obtain ⟨listed, found⟩ := List.mem_filter.mp there
    obtain ⟨d, target, declared, belongs, leads, same⟩ := Env.leadsTo_iff.mp found
    obtain ⟨v, key, given⟩ := keyed name listed d target declared belongs leads same
    exact ⟨d, v, declared, key, whereBelongsTo_text known declared belongs key given⟩
  have unique : (∀ name ∈ m.relationNames, env.fault? m name = none) → ∀ name,
      m.relationNames.filter (env.leadsTo owner.id m) = [name] →
        whereBelongsTo env (.object id) .null q =
          whereBelongsTo env (.object id) (.text name) q := by
    intro sound name only
    rw [List.findSome?_eq_none_iff.mpr sound, only] at search
    exact whereBelongsTo_null search
  have missing : (∀ name ∈ m.relationNames, env.fault? m name = none) →
      (∀ name, m.relationNames.filter (env.leadsTo owner.id m) ≠ [name]) →
        whereBelongsTo env (.object id) .null q =
          .error (.relationNotFound m.name (Text.lowercase owner.name)) q := by
    intro sound others
    rw [List.findSome?_eq_none_iff.mpr sound] at search
    refine whereBelongsTo_null_of_error (search.trans ?_)
    dsimp only
    split
    · next only => exact absurd only (others _)
    · rfl
  have faulty : ∀ e, m.relationNames.findSome? (env.fault? m) = some e →
      whereBelongsTo env (.object id) .null q = .error e q := by
    intro e stopped
    rw [stopped] at search
    exact whereBelongsTo_null_of_error search
  refine ⟨⟨?_, ?_⟩, fun sound => ⟨fun name only => ⟨unique sound name only, named name only⟩,
    missing sound⟩, ?_⟩
  · rintro ⟨after, ran⟩
    cases stopped : m.relationNames.findSome? (env.fault? m) with
    | some e => cases ran.symm.trans (faulty e stopped)
    | none =>
      have sound := List.findSome?_eq_none_iff.mp stopped
      refine ⟨sound, ?_⟩
      by_contra none_
      cases ran.symm.trans (missing sound (not_exists.mp none_))
  · rintro ⟨sound, name, only⟩
    obtain ⟨d, v, -, -, ran⟩ := named name only
    exact ⟨_, (unique sound name only).trans ran⟩
  · intro before name after e whole earlier stops
    apply faulty
    rw [whole, List.findSome?_append, List.findSome?_eq_none_iff.mpr earlier, Option.none_or,
      List.findSome?_cons, stops]

/-- The relation of posts to their author. -/
def writtenBy : Descriptor :=
  { (default : Descriptor) with
    kind := .belongsTo
    target := .model 1
    foreignKey := some "author_id"
    ownerKey := some "id" }

/-- An editor of a class that there is not. -/
def lostEditor : Descriptor :=
  { (default : Descriptor) with kind := .belongsTo, target := .text "Nobody" }

/-- Posts with their author and other relations beside. -/
def writtenPost (others : List (String × StaticEntry)) : Model :=
  { plainPost with static := ("author", .descriptor writtenBy) :: others }

def deskAuthor : Model := { plainPost with id := 1, name := "Author" }

/-- An author with the key seven. -/
def deskEnv (others : List (String × StaticEntry)) : Env :=
  { plainEnv with
    catalog := ⟨#[writtenPost others, deskAuthor]⟩
    objects := #[⟨1, [("id", .int 7)], [], [], none⟩] }

/-- The author is found where there is no other relation. An editor of an unknown class, to whom
posts belong as well, keeps the author from being found. -/
theorem lost_editor_hides_author :
    let q := Query.blank plainPost.source .null
    let edited := [("editor", StaticEntry.descriptor lostEditor)]
    (deskEnv []).Keyed (writtenPost []) deskAuthor.id 0 ∧
      whereBelongsTo (deskEnv []) (.object 0) .null q =
        .ok () (withCondition q (.leaf .and (.compare "author_id" "=" (.int 7)))) ∧
      (deskEnv edited).Keyed (writtenPost edited) deskAuthor.id 0 ∧
      (writtenPost edited).relationNames.filter
        ((deskEnv edited).leadsTo deskAuthor.id (writtenPost edited)) = ["author"] ∧
      whereBelongsTo (deskEnv edited) (.object 0) .null q = .error (.unresolvedTag "Nobody") q := by
  intro q edited
  have known (others) : (deskEnv others).catalog.model? q.select.source.model =
      some (writtenPost others) := rfl
  have object (others) : (deskEnv others).modelOfValue? (.object 0) = some deskAuthor := rfl
  have alone : (deskEnv []).Keyed (writtenPost []) deskAuthor.id 0 := by
    refine List.forall_mem_cons.mpr ⟨?_, List.forall_mem_nil _⟩
    rintro d target declared - - -
    obtain rfl : writtenBy = d := Except.ok.inj declared
    exact ⟨.int 7, rfl, rfl⟩
  have beside : (deskEnv edited).Keyed (writtenPost edited) deskAuthor.id 0 := by
    refine List.forall_mem_cons.mpr ⟨?_, List.forall_mem_cons.mpr ⟨?_, List.forall_mem_nil _⟩⟩
    · rintro d target declared - - -
      obtain rfl : writtenBy = d := Except.ok.inj declared
      exact ⟨.int 7, rfl, rfl⟩
    · rintro d target declared - found -
      obtain rfl : lostEditor.withDefaults "Post" (deskEnv edited).nameOf "editor" = d :=
        Except.ok.inj declared
      cases found
  obtain ⟨-, sound, -⟩ := owner_inferred_unless_at_fault (known []) (object []) alone
  obtain ⟨-, -, stops⟩ := owner_inferred_unless_at_fault (known edited) (object edited) beside
  refine ⟨alone, ?_, beside, rfl, stops ["author"] "editor" [] _ rfl (by decide +kernel) rfl⟩
  obtain ⟨same, d, v, declared, key, ran⟩ := (sound (by decide +kernel)).1 "author" rfl
  obtain rfl : writtenBy = d := Except.ok.inj declared
  obtain rfl : Value.int 7 = v := Glimpse.value.inj (Except.ok.inj key)
  exact same.trans ran

end Build

end Relata
