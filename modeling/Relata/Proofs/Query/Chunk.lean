import Relata.Proofs.Query.Built
import Relata.Proofs.Query.Linked
import Relata.Proofs.Sql.Behind

/-!
What the WHERE clause of a chunk asks for. The tests that link rows to keys stand in one list with
the conditions of the relation and of the refinement, and no parentheses keep them apart. Main
statement: as SQL reads the clause, the linking tests restrict the conditions up to the first one
joined by OR, and the deletion scope restricts all of them; an alternative after that is read
without the linking tests. They restrict the whole only if nothing is joined by OR.
-/

namespace Relata

open Sql (Condition Junction Test)

/-- One column at least links rows to keys. -/
theorem Env.columns_ne_nil {env : Env} {d : Descriptor} {parent related : Model} {keys : List Value}
    {l : Linkage} (h : env.linkage d parent related keys = .ok l) : l.columns ≠ [] := by
  unfold linkage at h
  dsimp only at h
  split at h
  case h_1 | h_2 | h_3 | h_7 =>
    obtain rfl := Except.ok.inj h
    exact List.cons_ne_nil _ _
  case h_4 | h_5 | h_6 =>
    obtain ⟨tags, -, h⟩ := ok_of_bind h
    obtain rfl := Except.ok.inj h
    exact List.cons_ne_nil _ _
  case h_8 | h_9 =>
    obtain ⟨through, -, h⟩ := ok_of_bind h
    obtain rfl := Except.ok.inj h
    exact List.cons_ne_nil _ _
  case h_10 => cases h

namespace Loader

variable {self : Loader} {env : Env} {d : Descriptor} {parent : Model} {path : String}
  {keys : List Value} {q : Query} {J : Junction → Prop}

/-- The WHERE clause of a chunk under any valuation of the tests, whatever the calls recorded on the
relation and those of the refinement do within the where family. What these calls make of a new
query on the related model stands behind the linking tests: its first alternative is read together
with them, the others by themselves. If no call joins by OR, the clause holds only where the linking
tests do. -/
theorem reading_of_chunk (built : self.chunkQuery env d parent path keys = .ok q)
    (recorded : ∀ c ∈ d.constraints, env.NarrowingCall J c)
    (asked : env.NarrowingCallback J (self.callbackFor path)) :
    ∃ related base plain l, env.relatedModel d = .ok related ∧ related.query = .ok base ∧
      Build.finish base (env.refining d (self.callbackFor path)) = .ok plain ∧
      env.linkage d parent related keys = .ok l ∧
      (∀ c ∈ plain.select.conditions, J c.junction) ∧
      ∀ v : Test → Bool,
        Condition.reading v q.select.whereTokens =
          some (((l.tests ++ d.extremeTests related).all v &&
              Condition.leadingHold v plain.select.conditions ||
            Condition.alternativeHolds v plain.select.conditions) &&
            Condition.allHold v (q.select.deletionScope q.select.from_)) ∧
        ((∀ j, J j → j = .and) → Condition.reading v q.select.whereTokens = some true →
          ∀ t ∈ l.tests, v t = true) := by
  obtain ⟨related, base, plain, l, hrelated, hbase, hplain, hl, joined, linked, -⟩ :=
    chunkQuery_eq_ok built recorded asked
  refine ⟨related, base, plain, l, hrelated, hbase, hplain, hl, joined, fun v => ?_⟩
  have some_ : l.tests ++ d.extremeTests related ≠ [] := by
    simp [Linkage.tests, Env.columns_ne_nil hl]
  have reading := Sql.Select.reading_of_leaves some_ linked.conditions v
  refine ⟨reading, fun only_and holds t ht => ?_⟩
  have alone := Condition.alternativeHolds_eq_false v fun c hc => only_and _ (joined c hc)
  rw [reading, alone] at holds
  simp only [List.all_append, Bool.or_false, Option.some.injEq, Bool.and_eq_true] at holds
  exact List.all_eq_true.mp holds.1.1.1 t ht

/-- Posts by their authors, those that are not drafts or are public. -/
def publishedRelation : Descriptor :=
  { (default : Descriptor) with
    kind := .hasMany
    target := .model 0
    foreignKey := some "author_id"
    localKey := some "id"
    constraints := [.mk "where" [.text "draft", .int 0] [],
      .mk "or_where" [.text "public", .int 1] []] }

def plainLoader : Loader := ⟨[], [], .null, false, defaultChunk⟩

/-- The conditions that the relation records. -/
def published : List Sql.Clause :=
  [.leaf .and (.compare "draft" "=" (.int 0)), .leaf .or (.compare "public" "=" (.int 1))]

def postsWith (conditions : List Sql.Clause) : Query :=
  { newPosts with select := { newPosts.select with conditions := conditions } }

/-- The query for the posts of the authors one and two. -/
def publishedPosts : Query :=
  postsWith (.leaf .and (.among false "author_id" [.int 1, .int 2]) :: published)

/-- A public post of another author. -/
def foreignPost : Test → Bool
  | .compare column _ _ => column == "public"
  | _ => false

/-- A public post of any other author passes. -/
theorem public_posts_escape :
    plainLoader.chunkQuery plainEnv publishedRelation plainPost "posts" [.int 1, .int 2] =
      .ok publishedPosts ∧
    (∀ v : Test → Bool, Condition.reading v publishedPosts.select.whereTokens =
      some (v (.among false "author_id" [.int 1, .int 2]) && v (.compare "draft" "=" (.int 0)) ||
        v (.compare "public" "=" (.int 1)))) ∧
    ∃ v : Test → Bool, Condition.reading v publishedPosts.select.whereTokens = some true ∧
      v (.among false "author_id" [.int 1, .int 2]) = false := by
  have built : plainLoader.chunkQuery plainEnv publishedRelation plainPost "posts"
      [.int 1, .int 2] = .ok publishedPosts := rfl
  have recorded : ∀ c ∈ publishedRelation.constraints,
      plainEnv.NarrowingCall (fun _ => True) c := by
    intro c hc
    obtain rfl | rfl := by simpa [publishedRelation] using hc
    · exact .where_ (m := .where_ .and) rfl rfl trivial
    · exact .where_ (m := .where_ .or) rfl rfl trivial
  have reads : ∀ v : Test → Bool, Condition.reading v publishedPosts.select.whereTokens =
      some (v (.among false "author_id" [.int 1, .int 2]) && v (.compare "draft" "=" (.int 0)) ||
        v (.compare "public" "=" (.int 1))) := by
    intro v
    obtain ⟨related, base, plain, l, hrelated, hbase, hplain, hl, -, reading⟩ :=
      reading_of_chunk built recorded .none
    obtain rfl : plainPost = related := Except.ok.inj hrelated
    obtain rfl : newPosts = base := Except.ok.inj hbase
    cases hl
    have own : Build.finish newPosts (plainEnv.refining publishedRelation .null) =
        .ok (postsWith published) := rfl
    obtain rfl : plain = postsWith published := Except.ok.inj (hplain.symm.trans own)
    have leading : Condition.leadingHold v published = v (.compare "draft" "=" (.int 0)) := by
      simp [published, Condition.leadingHold, Condition.holds?, Condition.junction]
    have later : Condition.alternativeHolds v published =
        v (.compare "public" "=" (.int 1)) := by
      simp [published, Condition.alternativeHolds, Condition.leadingHold, Condition.holds?,
        Condition.junction]
    have scope : publishedPosts.select.deletionScope publishedPosts.select.from_ = [] := rfl
    have one : publishedRelation.extremeTests plainPost = [] := rfl
    rw [(reading v).1, scope, one]
    change some ((_ && Condition.leadingHold v published || Condition.alternativeHolds v published)
      && true) = _
    simp [leading, later, Linkage.tests, Descriptor.written, publishedRelation]
  refine ⟨built, reads, foreignPost, ?_, ?_⟩
  · rw [reads]
    rfl
  · rfl

end Loader

end Relata
