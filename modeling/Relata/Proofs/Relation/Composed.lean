import Relata.Proofs.Relation.Answered

/-!
What a composition resolves to. Its keys are those of the two relations that it follows, and its
target is that of the second. The recorded calls and the number of rows are those of the second
relation, too; of the first one, no more than the keys is taken over.
-/

namespace Relata

namespace Descriptor

/-- Relations that a composition may end with. -/
def Ends (d : Descriptor) : Prop := d.kind = .belongsTo ∨ d.Leads

/-- The descriptor is put together of two relations and of further calls, by way of a model between
the two. -/
structure Composes (d one two : Descriptor) (between : Model) (calls : List Call) : Prop where
  kind : d.kind = if two.kind.isSingle then .hasOneThrough else .hasManyThrough
  target : d.target = two.target
  through : d.through = .model between.id
  localKey : d.localKey = one.localKey
  firstKey : d.firstKey = one.foreignKey
  secondKey : d.secondKey = two.relatedColumn
  secondLocalKey : d.secondLocalKey = two.parentAttribute
  constraints : d.constraints = two.constraints ++ calls

theorem Composes.isThrough {d one two : Descriptor} {between : Model} {calls : List Call}
    (composes : d.Composes one two between calls) :
    d.kind = .hasOneThrough ∨ d.kind = .hasManyThrough := by
  rw [composes.kind]
  split
  · exact .inl rfl
  · exact .inr rfl

theorem kind_withDefaults (d : Descriptor) (parent : String) (nameOf : Value → String)
    (name : String) : (d.withDefaults parent nameOf name).kind = d.kind := by
  obtain ⟨kind⟩ := d
  cases kind <;> rfl

/-- A complete descriptor names the columns that the two ends of such a relation are matched by. -/
theorem exists_keys {d : Descriptor} {parent : String} {nameOf : Value → String} {name : String}
    (ends : (d.withDefaults parent nameOf name).Ends) :
    (∃ column, (d.withDefaults parent nameOf name).relatedColumn = some column) ∧
      ∃ own, (d.withDefaults parent nameOf name).parentAttribute = some own := by
  unfold Ends Leads at ends
  rw [kind_withDefaults] at ends
  obtain ⟨kind⟩ := d
  rcases ends with same | same | same <;> cases same <;> exact ⟨⟨_, rfl⟩, _, rfl⟩

theorem Leads.relatedColumn {d : Descriptor} (leads : d.Leads) :
    d.relatedColumn = d.foreignKey := by
  unfold Descriptor.relatedColumn
  rcases leads with kind | kind <;> rw [kind]

theorem Leads.parentAttribute {d : Descriptor} (leads : d.Leads) :
    d.parentAttribute = d.localKey := by
  unfold Descriptor.parentAttribute
  rcases leads with kind | kind <;> rw [kind]

/-- Keys that are there stay as they are. -/
theorem Composes.withDefaults {d one two : Descriptor} {between : Model} {calls : List Call}
    (composes : d.Composes one two between calls) {foreign own column attribute_ : String}
    (hforeign : one.foreignKey = some foreign) (hown : one.localKey = some own)
    (hcolumn : two.relatedColumn = some column) (hattribute : two.parentAttribute = some attribute_)
    (parent : String) (nameOf : Value → String) (name : String) :
    (d.withDefaults parent nameOf name).Composes one two between calls := by
  have either := composes.isThrough
  obtain ⟨kind, target, through, localKey, firstKey, secondKey, secondLocalKey, constraints⟩ :=
    composes
  rw [hforeign] at firstKey
  rw [hown] at localKey
  rw [hcolumn] at secondKey
  rw [hattribute] at secondLocalKey
  have same := (kind_withDefaults d parent nameOf name).trans kind
  obtain ⟨_⟩ := d
  dsimp only at target through localKey firstKey secondKey secondLocalKey constraints either
  subst localKey firstKey secondKey secondLocalKey
  rcases either with rfl | rfl <;>
    exact ⟨same, target, through, hown.symm, hforeign.symm, hcolumn.symm, hattribute.symm,
      constraints⟩

end Descriptor

namespace Lookup

variable {l : Lookup} {m between : Model} {name first final : Value} {d one two : Descriptor}
  {calls : List Call} {e : Error}

/-- A composition that is put together ends with such a relation. -/
theorem compose_eq_ok (h : compose one two between calls e = .ok d) :
    two.Ends ∧ d.Composes one two between calls := by
  unfold compose at h
  unfold Descriptor.Ends Descriptor.Leads
  cases kind : two.kind with
  | belongsTo | hasOne | hasMany =>
    rw [kind] at h
    cases h
    refine ⟨by simp, by rw [kind]; rfl, rfl, rfl, rfl, rfl, ?_, ?_, rfl⟩
    · rw [Descriptor.relatedColumn, kind]
    · rw [Descriptor.parentAttribute, kind]
  | _ =>
    rw [kind] at h
    cases h

/-- The two relations that a composition on a model follows: the first one there, and the second on
the model between, to which the first leads. -/
structure Follows (l : Lookup) (m : Model) (first final : Value) (one two : Descriptor)
    (between : Model) : Prop where
  first : l.resolve m first = .ok (some one)
  leads : one.Leads
  led : l.relatedModel one = .ok between
  final : l.resolve between final = .ok (some two)
  ends : two.Ends

/-- A relation that is there has been completed. -/
theorem exists_withDefaults {depth : Nat} (h : l.resolveUpTo depth m name = .ok (some d)) :
    ∃ (own : Descriptor) (owner text : String), d = own.withDefaults owner l.nameOf text := by
  cases depth with
  | zero =>
    rw [resolveUpTo] at h
    cases h
  | succ depth =>
    cases name with
    | text text =>
      rw [resolveUpTo] at h
      dsimp only at h
      split at h
      · cases h
        exact ⟨_, _, _, rfl⟩
      · cases h
      · split at h <;> cases h
    | _ => cases h

/-- A composed name that is resolved follows two relations that are resolved, and is put together of
them and of the calls recorded on the composition. -/
theorem follows_of_resolve (composed : hops? m name = some (first, final))
    (resolved : l.resolve m name = .ok (some d)) :
    ∃ one two between calls, l.Follows m first final one two between ∧
      d.Composes one two between calls ∧ (declaration? m name).map (·.calls) = some calls := by
  obtain ⟨text, declared, owner, rfl, declaration, form, described⟩ := exists_composition l composed
  -- Each of the two is resolved three levels further down.
  have settled {m : Model} {name : Value} {d : Descriptor}
      (found : l.resolveUpTo 597 m name = .ok (some d)) : l.resolve m name = .ok (some d) := by
    have deeper : 597 ≤ compositionDepth := by decide
    exact ((l.settles_of_le deeper m name).eq (by simp [found])).trans found
  rw [resolve, show compositionDepth = 599 + 1 from rfl, described] at resolved
  cases raw : l.describe 599 m declared with
  | error e =>
    rw [raw, Except.map, named] at resolved
    split at resolved <;> cases resolved
  | ok own =>
    rw [raw] at resolved
    cases resolved
    rw [describe, form] at raw
    obtain ⟨one, hone, raw⟩ := ok_of_bind raw
    have hone := requireUpTo_eq_ok_iff.mp hone
    split at raw
    · cases raw
    · next leads =>
      have leads := Descriptor.leads_iff.mp leads
      obtain ⟨between, led, raw⟩ := ok_of_bind raw
      obtain ⟨two, htwo, raw⟩ := ok_of_bind raw
      have htwo := requireUpTo_eq_ok_iff.mp htwo
      obtain ⟨ends, composes⟩ := compose_eq_ok raw
      refine ⟨one, two, between, declared.calls,
        ⟨settled hone, leads, led, settled htwo, ends⟩, ?_, by rw [declaration]; rfl⟩
      obtain ⟨_, _, _, rfl⟩ := exists_withDefaults hone
      obtain ⟨_, _, _, rfl⟩ := exists_withDefaults htwo
      obtain ⟨⟨column, hcolumn⟩, attribute_, hattribute⟩ := Descriptor.exists_keys ends
      obtain ⟨⟨foreign, hforeign⟩, own, hown⟩ := Descriptor.exists_keys (.inr leads)
      exact composes.withDefaults (leads.relatedColumn.symm.trans hforeign)
        (leads.parentAttribute.symm.trans hown) hcolumn hattribute _ _ _

end Lookup

end Relata
