import Relata.Proofs.Query.Built
import Relata.Proofs.Schema.Inherited
import Relata.Proofs.Schema.Tagged
import Relata.Proofs.Sql.Correlated

/-!
Rows whose target is an object. A filter asks for one tag, the one written for the class of the
object, and for its id; loading looks up whatever tag a row has. Main statement: which rows the
filter keeps, and how these differ from the rows that loading would give the object to.
-/

namespace Relata

namespace Sql

/-- The test that a column holds a value; of nothing, that it holds nothing. -/
def Test.holding (column : String) (v : Value) : Test :=
  if v.isNull then .null false column else .compare column "=" v

/-- A row that compares as values are compared: nothing equals no value, and other values equal what
counts as the same. -/
structure RowView.Literal (row : RowView) : Prop where
  equal : ∀ a b, row.equal a b = (!a.isNull && a.same b)
  compare : ∀ column v,
    row.truth (.compare column "=" v) = (row.value column).any (row.equal · v)
  null : ∀ column, row.truth (.null false column) = (row.value column).any (·.isNull)

theorem RowView.Literal.truth_holding {row : RowView} (literal : row.Literal) {column : String}
    {a : Value} (found : row.value column = some a) (v : Value) :
    row.truth (Test.holding column v) = a.same v := by
  unfold Test.holding
  split
  · next none_ =>
    rw [literal.null, found]
    cases v <;> cases none_
    cases a <;> rfl
  · next given =>
    rw [literal.compare, found, Option.any_some, literal.equal]
    cases null : a.isNull with
    | false => rfl
    | true =>
      cases a <;> cases null
      cases v <;> first | rfl | exact absurd rfl given

end Sql

namespace Build

open Sql (Test)

theorem comparison_eq_ok (column : String) (v : Value) (q : Query) :
    comparison .and (.text column) (some v) none q =
      .ok (.leaf .and (Test.holding column v)) q := by
  unfold Test.holding
  cases null : v.isNull with
  | true =>
    cases v <;> cases null
    rfl
  | false => cases v <;> first | rfl | cases null

/-- The query with more tests joined by AND. -/
def withTests (q : Query) (tests : List Test) : Query :=
  { q with select := { q.select with
    conditions := q.select.conditions ++ tests.map (.leaf .and) } }

/-- What the filter adds: a test of the type column and one of the id column. -/
theorem whereMorphedTo_eq_ok {env : Env} {q : Query} {parent m : Model} {relation target id : Value}
    {d : Descriptor} (source : env.catalog.model? q.select.source.model = some parent)
    (required : env.require parent relation = .ok d) (morph : d.kind = .morphTo)
    (class_ : env.modelOfValue? target = some m)
    (identified : env.requireProperty target "id" = .ok id) :
    whereMorphedTo env relation target q = .ok ()
      (withTests q [Test.holding (Descriptor.written d.typeColumn) (env.tags.tagFor m),
        Test.holding (Descriptor.written d.idColumn) id]) := by
  have found : requireMorphTo env relation q = .ok d q := by
    have known : require env relation q = .ok d q :=
      bind_eq_ok (model_eq_ok source) (ofExcept_eq_ok required q)
    refine bind_eq_ok known ?_
    rw [morph]
    rfl
  have tag : env.classTag env.tags target = env.tags.tagFor m := by
    rw [Env.classTag, class_]
  have read : ∀ q, attributeOf env target "id" q = .ok id q := by
    intro q
    have glimpsed : env.glimpse target "id" = .ok (.value id) := by
      cases target with
      | object own =>
        rw [Env.glimpse, identified]
        rfl
      | _ => cases class_
    exact bind_eq_ok (ofExcept_eq_ok glimpsed q) rfl
  unfold whereMorphedTo
  rw [tag]
  refine bind_eq_ok found (bind_eq_ok (comparison_eq_ok _ _ q) (bind_eq_ok (a := ()) rfl ?_))
  refine bind_eq_ok (read _) (bind_eq_ok (comparison_eq_ok _ _ _) ?_)
  exact congrArg (fun conditions => EStateM.Result.ok ()
    { q with select := { q.select with conditions := conditions } }) (List.append_assoc ..)

end Build

open Sql (Clause RowView Test)

theorem Value.isNull_of_same {a b : Value} (h : a.same b = true) : a.isNull = b.isNull := by
  cases a <;> cases b <;> first | rfl | cases h

/-- Loading gives an object of that model and id to a row with tag `t` and id `i`. -/
def Env.PointsAt (env : Env) (m : Model) (id t i : Value) : Prop :=
  i.isNull = false ∧ i.same id = true ∧ env.tags.modelFor env.catalog t = .ok (.model m.id)

/-- Which rows the filter for the rows with a target keeps, for any models, any aliases, any query
on a model with such a relation and any object, its id null or not: those with the tag that is
written for the class of the object and with the same id, null if that is null. Loading gives the
object to no row if its id is null; otherwise the two agree on a row unless it has the id and its
tag leads to the class without being the one that is written, or the other way round. If no tag has
two bearers, the tag that is written leads to the class, and so does every other one by which the
class is known. -/
theorem whereMorphedTo_keeps (env : Env) {q : Query} {parent m : Model} {relation target id : Value}
    {d : Descriptor} {s : String}
    (source : env.catalog.model? q.select.source.model = some parent)
    (required : env.require parent relation = .ok d) (morph : d.kind = .morphTo)
    (class_ : env.modelOfValue? target = some m) (written : env.tags.tagFor m = .text s)
    (identified : env.requireProperty target "id" = .ok id) :
    (∃ tests, Build.whereMorphedTo env relation target q = .ok () (Build.withTests q tests) ∧
      ∀ row : RowView, row.Literal → ∀ t i,
        row.value (Descriptor.written d.typeColumn) = some t →
        row.value (Descriptor.written d.idColumn) = some i →
        (tests.all row.truth = true ↔ t = .text s ∧ i.same id = true) ∧
        (id.isNull = true → ¬ env.PointsAt m id t i) ∧
        (id.isNull = false →
          ((tests.all row.truth = true ↔ env.PointsAt m id t i) ↔
            (i.same id = true →
              (t = .text s ↔ env.tags.modelFor env.catalog t = .ok (.model m.id)))))) ∧
    (env.catalog.Defined → m ∈ env.catalog.models → env.tags.Unshared env.catalog →
      env.tags.modelFor env.catalog (.text s) = .ok (.model m.id) ∧
      ∀ t, t.isNull = false → (env.tags.modelFor env.catalog t = .ok (.model m.id) ↔
        t.isKey = true ∧ env.tags.recognizes m t = true)) := by
  refine ⟨⟨_, Build.whereMorphedTo_eq_ok source required morph class_ identified,
    fun row literal t i htag hid => ?_⟩, fun defined there unshared => ⟨?_, fun t given => ?_⟩⟩
  · have text : t.same (.text s) = true ↔ t = .text s := by
      constructor
      · cases t <;> simp_all [Value.same, Value.toInt?]
      · rintro rfl
        exact beq_self_eq_true s
    have kept : [Test.holding (Descriptor.written d.typeColumn) (env.tags.tagFor m),
        Test.holding (Descriptor.written d.idColumn) id].all row.truth = true ↔
          t = .text s ∧ i.same id = true := by
      simp [literal.truth_holding htag, literal.truth_holding hid, written, text]
    refine ⟨kept, fun null points => ?_, fun given => ?_⟩
    · have none_ := Value.isNull_of_same points.2.1
      rw [points.1, null] at none_
      cases none_
    · rw [kept, Env.PointsAt]
      cases same : i.same id with
      | false => simp
      | true =>
        have some_ : i.isNull = false := (Value.isNull_of_same same).trans given
        simp [some_]
  · exact (TagMap.modelFor_eq_model_iff defined unshared there rfl).mpr
      ⟨rfl, TagMap.recognizes_tagFor written⟩
  · exact TagMap.modelFor_eq_model_iff defined unshared there given

/-- A row given by its columns. -/
def Sql.RowView.ofValues (value : String → Option Value) : RowView where
  value := value
  equal a b := !a.isNull && a.same b
  truth
    | .compare column "=" v => (value column).any fun a => !a.isNull && a.same v
    | .null false column => (value column).any (·.isNull)
    | .among false column items =>
      items.any fun v => (value column).any fun a => !a.isNull && a.same v
    | _ => false
  among _ _ := rfl

theorem Sql.RowView.literal_ofValues (value : String → Option Value) : (ofValues value).Literal :=
  ⟨fun _ _ => rfl, fun _ _ => rfl, fun _ => rfl⟩

/-- Articles, known by a tag of their own, and remarks, each on a subject. -/
def subjects : List Definition :=
  [{ Catalog.heir "Article" none [] with
      settings := ⟨.null, .null, .text "article", .null, .null, .null, .null⟩ },
    Catalog.heir "Remark" none [("subject", ⟨.direct [("kind", .text "morph_to")], [], none, []⟩)]]

def subjectCatalog : Catalog := (subjects.foldlM Catalog.define .empty).toOption.getD .empty

/-- The article numbered one, and one that has no number yet. -/
def subjectEnv : Env :=
  { plainEnv with
    catalog := subjectCatalog
    objects := #[⟨0, [("id", .int 1)], [], [], none⟩, ⟨0, [("id", .null)], [], [], none⟩] }

def article : Model :=
  have bound : 0 < subjectCatalog.models.size := by decide
  subjectCatalog.models[0]

def remark : Model :=
  have bound : 1 < subjectCatalog.models.size := by decide
  subjectCatalog.models[1]

def remarkRow (tag id : Value) : RowView := .ofValues fun column =>
  if column = "subject_type" then some tag else if column = "subject_id" then some id else none

/-- The tags that are borne, each with its bearer. -/
def subjectBearers : List (String × ModelId) :=
  [("article", 0), ("Article", 0), ("articles", 0), ("Remark", 1), ("remarks", 1)]

theorem unshared_subjects : TagMap.empty.Unshared subjectCatalog := by
  refine TagMap.unshared_of_bearers subjectBearers (fun m there => ?_) (by decide)
  have either : m = article ∨ m = remark := by
    obtain ⟨i, bound, rfl⟩ := Array.mem_iff_getElem.mp there
    have two : subjectCatalog.models.size = 2 := rfl
    obtain rfl | rfl : i = 0 ∨ i = 1 := by omega
    · exact .inl rfl
    · exact .inr rfl
  rcases either with rfl | rfl
  · exact ⟨.inr ⟨_, rfl, by decide⟩, fun v none_ => (nomatch none_), by decide, _, rfl, by decide⟩
  · exact ⟨.inl rfl, fun v none_ => (nomatch none_), by decide, _, rfl, by decide⟩

/-- A remark that names the class of the article is not kept, and one without a subject is kept for
the article without a number. The class is known by its name, and so it leads there. -/
theorem remark_on_named_class_is_missed :
    (∃ tests, Build.whereMorphedTo subjectEnv (.text "subject") (.object 0)
        (.blank remark.source .null) = .ok () (Build.withTests (.blank remark.source .null) tests) ∧
      tests.all (remarkRow (.text "article") (.int 1)).truth = true ∧
      tests.all (remarkRow (.text "Article") (.int 1)).truth = false ∧
      subjectEnv.PointsAt article (.int 1) (.text "Article") (.int 1)) ∧
    ∃ tests, Build.whereMorphedTo subjectEnv (.text "subject") (.object 1)
        (.blank remark.source .null) = .ok () (Build.withTests (.blank remark.source .null) tests) ∧
      tests.all (remarkRow (.text "article") .null).truth = true ∧
      ∀ t i, ¬ subjectEnv.PointsAt article .null t i := by
  obtain ⟨d, required, morph, typed, numbered⟩ : ∃ d,
      subjectEnv.require remark (.text "subject") = .ok d ∧ d.kind = .morphTo ∧
      Descriptor.written d.typeColumn = "subject_type" ∧
      Descriptor.written d.idColumn = "subject_id" := ⟨_, rfl, rfl, rfl, rfl⟩
  have columns (tag id : Value) :
      (remarkRow tag id).value (Descriptor.written d.typeColumn) = some tag ∧
      (remarkRow tag id).value (Descriptor.written d.idColumn) = some id := by
    rw [typed, numbered]
    exact ⟨rfl, rfl⟩
  have numbered_ : subjectEnv.modelOfValue? (.object 0) = some article := rfl
  have numberless : subjectEnv.modelOfValue? (.object 1) = some article := rfl
  obtain ⟨⟨first, run, keeps⟩, leads⟩ := whereMorphedTo_keeps subjectEnv (s := "article")
    (q := .blank remark.source .null) rfl required morph numbered_ rfl rfl
  obtain ⟨⟨second, run', keeps'⟩, -⟩ := whereMorphedTo_keeps subjectEnv (s := "article")
    (q := .blank remark.source .null) rfl required morph numberless rfl rfl
  have at_ (tag id : Value) := keeps (remarkRow tag id) (RowView.literal_ofValues _) tag id
    (columns tag id).1 (columns tag id).2
  have draft (tag id : Value) := keeps' (remarkRow tag id) (RowView.literal_ofValues _) tag id
    (columns tag id).1 (columns tag id).2
  have made : subjects.foldlM Catalog.define .empty = .ok subjectCatalog := rfl
  have defined : subjectEnv.catalog.Defined := Catalog.Defined.empty.foldlM (by decide) made
  have named : subjectEnv.tags.modelFor subjectEnv.catalog (.text "Article") = .ok (.model 0) :=
    ((leads defined (Array.getElem_mem _) unshared_subjects).2 _ rfl).mpr ⟨rfl, rfl⟩
  refine ⟨⟨first, run, (at_ _ _).1.mpr ⟨rfl, rfl⟩, ?_, rfl, rfl, named⟩, second, run',
    (draft _ _).1.mpr ⟨rfl, rfl⟩, fun t i => (draft t i).2.1 rfl⟩
  have missed : Value.text "Article" ≠ .text "article" := fun same =>
    absurd (Value.text.inj same) (by decide)
  exact Bool.eq_false_iff.mpr fun kept => missed ((at_ _ _).1.mp kept).1

end Relata
