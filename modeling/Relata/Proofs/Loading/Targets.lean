import Relata.Proofs.Loading.Batched
import Relata.Proofs.Query.Linked
import Relata.Proofs.Schema.Tagged

/-!
What the rows of a model refer to. The query for rows that are tagged with the type of their owner
lets through every tag the owner accepts; seen from such a row, its tag is looked up among the
models. Main statement: if no tag has two bearers, the rows of a model are filed under that model
again, but for those that refer to it by a further tag of its class. A warning is given of these,
and they are filed nowhere.
-/

namespace Relata

open Sql (Test)

/-- A row to which a relation of the model leads, by its tag: the column for the type holds the tag,
and the tag passes what the query for the rows asks of that column. -/
structure Env.Attached (env : Env) (owned : Descriptor) (m : Model) (o tag : Value) : Prop where
  of_model : m ∈ env.catalog.models
  kind : owned.kind.isMorphOwned = true
  tagged : env.propertyOrNull o (Descriptor.written owned.typeColumn) = .ok tag
  given : tag.isNull = false
  passes : ∃ related keys l, env.linkage owned m related keys = .ok l ∧
    ∀ tags, Test.among false (Descriptor.written owned.typeColumn) tags ∈ l.tests →
      ∃ listed ∈ tags, listed.same tag = true

/-- The query for tagged rows lets through the tags that their owner accepts. -/
theorem Env.Attached.accepts {env : Env} {owned : Descriptor} {m : Model} {o tag : Value}
    (h : env.Attached owned m o tag) : env.tags.Accepts m tag := by
  obtain ⟨related, keys, l, linked, passes⟩ := h.passes
  have kind := h.kind
  unfold linkage at linked
  cases own : owned.kind with
  | morphOne | morphMany | morphOneOfMany =>
    rw [own] at linked
    obtain ⟨tags, possible, linked⟩ := ok_of_bind linked
    obtain rfl := Except.ok.inj linked
    exact ⟨tags, possible, passes tags (.head _)⟩
  | _ =>
    rw [own] at kind
    cases kind

namespace Loader

variable {τ : Type} {d : Descriptor} {path : String}

/-- What the tag of an object names; a tag that nothing bears is warned of. -/
def targetOf (d : Descriptor) (path : String) (o : Value) : Deed τ (Option Value) := do
  let tag ← Deed.propertyOrNull o (Descriptor.written d.typeColumn)
  if tag.isNull then return none
  let target ← Act.getsExcept fun w => w.tags.modelFor w.catalog tag
  if target.isNull then
    let (name, shown) ← Act.gets fun w => (w.className o, w.shown tag)
    Deed.warn s!"Cannot resolve morph type `{shown}` for {name}.{path}, assigning None"
    return none
  keysMustHash [target]
  return some target

/-- Each object is filed under its target, if it has one. -/
theorem targetsByTag_eq (objects : List Value) :
    (targetsByTag d path objects : Deed τ _) = objects.foldlM (fun groups o => do
      let found ← targetOf d path o
      return found.elim groups fun target => Matches.add groups target o) [] := by
  unfold targetsByTag targetOf
  refine congrArg (fun step => List.foldlM step [] objects) ?_
  funext groups o
  simp only [bind_assoc]
  refine bind_congr fun tag => ?_
  split
  · simp
  · simp only [bind_assoc]
    refine bind_congr fun target => ?_
    split <;> simp

variable (answers : Request → Except Error (List Row))

/-- What the tag of an object names, if it names a model or nothing. Nothing but warnings is left
behind. -/
theorem comes_targetOf (w : World τ) {o tag : Value} {named : Bool} {id : ModelId}
    (tagged : w.propertyOrNull o (Descriptor.written d.typeColumn) = .ok tag)
    (given : tag.isNull = false)
    (found : w.tags.modelFor w.catalog tag = .ok (if named then .model id else .null)) :
    ∃ warnings, Act.Comes answers (targetOf d path o) w
      (.ok (if named then some (.model id) else none)) { w with warnings := warnings } := by
  have looked : Act.Comes answers (Act.getsExcept fun w : World τ => w.tags.modelFor w.catalog tag)
      w (.ok (if named then .model id else .null)) w := .getsExcept_ok _ found
  have read : ∀ {next : Value → Deed τ (Option Value)} {r w'}, Act.Comes answers (next tag) w r w' →
      Act.Comes answers (Deed.propertyOrNull o (Descriptor.written d.typeColumn) >>= next) w r w' :=
    (Act.Comes.getsExcept_ok (fun w : World τ => w.propertyOrNull o _) tagged).bind
  cases named with
  | true =>
    refine ⟨w.warnings, read ?_⟩
    rw [given]
    exact looked.bind ((comes_keysMustHash fun v hv => by
      obtain rfl := List.mem_singleton.mp hv
      rfl).bind (.pure _ _))
  | false =>
    let warning :=
      s!"Cannot resolve morph type `{w.shown tag}` for {w.className o}.{path}, assigning None"
    refine ⟨w.warnings ++ [warning], read ?_⟩
    rw [given]
    exact looked.bind ((Act.Comes.gets _ w).bind ((Act.Comes.modify _ w).bind (.pure _ _)))

/-- Objects whose tags name models or nothing are filed under the models named. -/
theorem comes_targetsByTag (w : World τ) {objects : List Value} (tag : Value → Value)
    (named : Value → Bool) (owner : Value → ModelId)
    (tagged : ∀ o ∈ objects, w.propertyOrNull o (Descriptor.written d.typeColumn) = .ok (tag o))
    (given : ∀ o ∈ objects, (tag o).isNull = false)
    (found : ∀ o ∈ objects, w.tags.modelFor w.catalog (tag o) =
      .ok (if named o then .model (owner o) else .null)) :
    ∃ warnings, Act.Comes answers (targetsByTag d path objects) w
      (.ok ((objects.filter named).foldl (fun groups o => Matches.add groups (.model (owner o)) o)
        [])) { w with warnings := warnings } := by
  rw [targetsByTag_eq]
  generalize ([] : List (Value × List Value)) = groups
  induction objects generalizing w groups with
  | nil => exact ⟨w.warnings, .pure _ _⟩
  | cons o rest ih =>
    obtain ⟨first, comes⟩ := comes_targetOf answers w
      (tagged o (.head _)) (given o (.head _)) (found o (.head _))
    obtain ⟨warnings, others⟩ := ih { w with warnings := first }
      (fun o there => tagged o (.tail _ there)) (fun o there => given o (.tail _ there))
      (fun o there => found o (.tail _ there))
      ((if named o then some (Value.model (owner o)) else none).elim groups fun target =>
        Matches.add groups target o)
    refine ⟨warnings, ?_⟩
    rw [List.foldlM_cons]
    refine (comes.bind (.pure _ _)).bind ?_
    cases own : named o with
    | true =>
      rw [own] at others
      rw [List.filter_cons_of_pos own]
      exact others
    | false =>
      rw [own] at others
      rw [List.filter_cons_of_neg (by simp [own])]
      exact others

/-- From accepted tags back to their models, where no tag has two bearers. A tag that a model accepts
is looked up as that model if the tag is an alias of it, the tag that the class gives itself, or the
name of the class or of the table; a further tag of the class that is none of these is looked up as
nothing. So the rows that relations of models lead to by their tags are filed under these models
again, and those with such a further tag are filed nowhere. -/
theorem accepted_tags_lead_back (w : World τ) (defined : w.catalog.Defined)
    (unshared : w.tags.Unshared w.catalog) :
    (∀ m ∈ w.catalog.models, ∀ tag : Value, tag.isNull = false → w.tags.Accepts m tag →
      w.tags.modelFor w.catalog tag =
        .ok (if w.tags.recognizes m tag then .model m.id else .null)) ∧
    ∀ (objects : List Value) (owned : Value → Descriptor) (owner : Value → Model)
      (tag : Value → Value),
      (∀ o ∈ objects, (owned o).typeColumn = d.typeColumn ∧
        w.Attached (owned o) (owner o) o (tag o)) →
      ∃ warnings, Act.Comes answers (targetsByTag d path objects) w
        (.ok ((objects.filter fun o => w.tags.recognizes (owner o) (tag o)).foldl
          (fun groups o => Matches.add groups (.model (owner o).id) o) []))
        { w with warnings := warnings } := by
  have looked {m : Model} {tag : Value} (there : m ∈ w.catalog.models)
      (given : tag.isNull = false) (accepted : w.tags.Accepts m tag) :=
    TagMap.modelFor_of_accepts defined unshared there given accepted
  refine ⟨fun m there tag => looked there, fun objects owned owner tag attached => ?_⟩
  refine comes_targetsByTag answers w tag (fun o => w.tags.recognizes (owner o) (tag o))
    (fun o => (owner o).id) (fun o there => ?_) (fun o there => ?_) fun o there => ?_
  · rw [← (attached o there).1]
    exact (attached o there).2.tagged
  · exact (attached o there).2.given
  · have own := (attached o there).2
    exact looked own.of_model own.given own.accepts

/-- Settings that are all left out but for the table. -/
def tableSettings (table : String) : Settings :=
  ⟨.text table, .null, .null, .null, .null, .null, .null⟩

def articleDefinition : Definition :=
  ⟨"Article", "Article", none, [], [], none, [], { tableSettings "articles" with
    morphClass := .text "article", morphTypes := .list [.text "legacy_article"] }⟩

def remarkDefinition : Definition :=
  ⟨"Remark", "Remark", none, [], [], none, [], tableSettings "remarks"⟩

/-- What a definition without bases is completed to. -/
def completed (id : ModelId) (d : Definition) : Model where
  id := id
  name := d.name
  key := d.key
  ancestry := [.model id, .root]
  bases := [.root]
  fields := [⟨"id", ⟨.any, true⟩, some .null⟩]
  namedTable := d.settings.table
  softDeletes := false
  morphClass := d.settings.morphClass
  morphTypes := (d.settings.morphTypes.items?).getD []
  connection := .text "default"
  defaultWith := []
  hidden := []
  declared := []
  ownStatic := none
  static := []
  ownScopes := []
  scopes := []

/-- Articles, known by a tag of their own and a further one, and remarks, each on a subject. -/
def remarkCatalog : Catalog := ⟨#[completed 0 articleDefinition, completed 1 remarkDefinition]⟩

theorem defined_remarkCatalog : remarkCatalog.Defined := by
  have articles : Catalog.empty.define articleDefinition =
      .ok ⟨#[completed 0 articleDefinition]⟩ := rfl
  have both : Catalog.define ⟨#[completed 0 articleDefinition]⟩ remarkDefinition =
      .ok remarkCatalog := rfl
  exact .define (.define .empty (by decide) articles) (by decide) both

/-- The tags that are borne, each with its bearer. -/
def remarkBearers : List (String × ModelId) :=
  [("article", 0), ("legacy_article", 0), ("Article", 0), ("articles", 0), ("Remark", 1),
    ("remarks", 1)]

theorem unshared_remarkCatalog : TagMap.empty.Unshared remarkCatalog := by
  refine TagMap.unshared_of_bearers remarkBearers (fun m there => ?_) (by decide)
  have either : m = completed 0 articleDefinition ∨ m = completed 1 remarkDefinition := by
    simpa [remarkCatalog] using there
  rcases either with rfl | rfl
  · refine ⟨.inr ⟨_, rfl, by decide⟩, fun v own => ?_, by decide, _, rfl, by decide⟩
    exact ⟨_, List.mem_singleton.mp own, by decide⟩
  · exact ⟨.inl rfl, fun v none_ => (nomatch none_), by decide, _, rfl, by decide⟩

/-- The remarks of an article, as the relation is resolved. -/
def remarksRelation : Descriptor :=
  { (default : Descriptor) with
    kind := .morphMany
    target := .model 1
    typeColumn := some "subject_type"
    idColumn := some "subject_id"
    localKey := some "id" }

/-- The subject of a remark, as the relation is resolved. -/
def subjectRelation : Descriptor :=
  { remarksRelation with kind := .morphTo, target := .null, localKey := none }

def remarkOn (tag : String) : Entity :=
  ⟨1, [("id", .null)], [("subject_type", .text tag), ("subject_id", .int 1)], [], none⟩

/-- Two remarks, one tagged with the own tag of articles and one with the further tag. -/
def remarkWorld : World Unit where
  toEnv := { plainEnv with
    catalog := remarkCatalog, objects := #[remarkOn "article", remarkOn "legacy_article"] }
  tagMaps := #[]
  connections := []
  warnings := []
  rest := ()

/-- The tag of each remark. -/
def remarkTag : Value → Value
  | .object 0 => .text "article"
  | _ => .text "legacy_article"

/-- Both tags are accepted, and one of them leads back. -/
theorem remark_leads_back :
    TagMap.empty.possibleTags (completed 0 articleDefinition) =
        .ok [.text "legacy_article", .text "article", .text "Article"] ∧
      TagMap.empty.modelFor remarkCatalog (.text "article") = .ok (.model 0) ∧
      TagMap.empty.modelFor remarkCatalog (.text "legacy_article") = .ok .null ∧
      ∃ warnings, Act.Comes (fun _ => .ok [])
        (targetsByTag subjectRelation "subject" [.object 0, .object 1]) remarkWorld
        (.ok [(.model 0, [.object 0])]) { remarkWorld with warnings := warnings } := by
  have possible : TagMap.empty.possibleTags (completed 0 articleDefinition) =
      .ok [.text "legacy_article", .text "article", .text "Article"] := rfl
  obtain ⟨looked, filed⟩ := accepted_tags_lead_back (fun _ => .ok []) remarkWorld
    defined_remarkCatalog unshared_remarkCatalog
  have there : completed 0 articleDefinition ∈ remarkCatalog.models := by simp [remarkCatalog]
  have linked : remarkWorld.linkage remarksRelation (completed 0 articleDefinition)
      (completed 1 remarkDefinition) [.int 1] = .ok ⟨[("subject_type",
        [.text "legacy_article", .text "article", .text "Article"]), ("subject_id", [.int 1])],
        []⟩ := rfl
  have attached : ∀ o ∈ [Value.object 0, .object 1],
      remarkWorld.Attached remarksRelation (completed 0 articleDefinition) o (remarkTag o) := by
    intro o mem
    have tagged : remarkWorld.propertyOrNull o "subject_type" = .ok (remarkTag o) ∧
        (remarkTag o).isNull = false ∧ ∃ listed ∈
          [Value.text "legacy_article", .text "article", .text "Article"],
          listed.same (remarkTag o) = true := by
      simp only [List.mem_cons, List.not_mem_nil, or_false] at mem
      rcases mem with rfl | rfl
      · exact ⟨rfl, rfl, _, .tail _ (.head _), rfl⟩
      · exact ⟨rfl, rfl, _, .head _, rfl⟩
    refine ⟨there, rfl, tagged.1, tagged.2.1, _, _, _, linked, fun tags asked => ?_⟩
    obtain rfl : tags = [.text "legacy_article", .text "article", .text "Article"] := by
      simpa [Linkage.tests, remarksRelation, Descriptor.written] using asked
    exact tagged.2.2
  refine ⟨possible, looked _ there _ rfl ⟨_, possible, _, .tail _ (.head _), rfl⟩,
    looked _ there _ rfl ⟨_, possible, _, .head _, rfl⟩, ?_⟩
  exact filed [.object 0, .object 1] (fun _ => remarksRelation)
    (fun _ => completed 0 articleDefinition) remarkTag fun o mem => ⟨rfl, attached o mem⟩

end Loader

end Relata
