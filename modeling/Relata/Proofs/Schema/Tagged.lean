import Relata.Proofs.Schema.Listed
import Relata.Proofs.Value.Entries
import Relata.Schema.Tags

/-!
From tags back to models. The tags under which rows may refer to a model are listed from one set of
sources, and a tag is looked up in another: aliases and the tag a class gives itself stand in both,
the name of a class in both, the name of a table only in the second, and the further tags of a class
only in the first. Main statement: if no tag has two bearers, a listed tag is looked up as its
model, but for those that are further tags of the class and nothing else; they stand for nothing.
-/

namespace Relata

namespace TagMap

open Value (same_symm isKey_of_same)

variable {t : TagMap} {c : Catalog} {m : Model} {tag : Value}

/-- What a tag may be taken to stand for: a value by alias, or a model by the tag the class gives
itself, by a further tag, or by the name of the class or of the table. -/
inductive Bears (t : TagMap) (c : Catalog) (tag : Value) : Value → Prop
  | aliased {k v : Value} : (k, v) ∈ t.aliases → tag.same k = true → Bears t c tag v
  | own {m : Model} : m ∈ c.models → m.morphClass.same tag = true → Bears t c tag (.model m.id)
  | further {m : Model} : m ∈ c.models → m.morphTypes.any tag.same = true →
    Bears t c tag (.model m.id)
  | name {m : Model} : m ∈ c.models → tag.same (.text m.name) = true → Bears t c tag (.model m.id)
  | table {m : Model} : m ∈ c.models → tag.same m.tableName = true → Bears t c tag (.model m.id)

/-- No tag has two bearers. -/
def Unshared (t : TagMap) (c : Catalog) : Prop :=
  ∀ tag v w, tag.isNull = false → Bears t c tag v → Bears t c tag w → v = w

/-- Rows may refer to the model under the tag. -/
def Accepts (t : TagMap) (m : Model) (tag : Value) : Prop :=
  ∃ tags, t.possibleTags m = .ok tags ∧ ∃ listed ∈ tags, listed.same tag = true

/-- The tag stands for the model by one of the sources that are looked up. -/
def recognizes (t : TagMap) (m : Model) (tag : Value) : Bool :=
  (t.aliasesFor (.model m.id)).any tag.same || m.morphClass.same tag ||
    tag.same (.text m.name) || tag.same m.tableName

theorem eq_model_of_identical {v : Value} {id : ModelId} (h : v.identical (.model id) = true) :
    v = .model id := by
  cases v with
  | model other => exact congrArg Value.model (eq_of_beq h)
  | _ => cases h

theorem mem_aliasesFor {k : Value} {id : ModelId} :
    k ∈ t.aliasesFor (.model id) ↔ (k, Value.model id) ∈ t.aliases := by
  unfold aliasesFor
  rw [List.mem_map]
  constructor
  · rintro ⟨⟨k, v⟩, there, rfl⟩
    obtain ⟨there, identical⟩ := List.mem_filter.mp there
    rwa [← eq_model_of_identical identical]
  · intro there
    exact ⟨_, List.mem_filter.mpr ⟨there, beq_self_eq_true id⟩, rfl⟩

/-- An accepted tag can be a key and is one that the model bears. -/
theorem Accepts.bears (h : t.Accepts m tag) (there : m ∈ c.models) :
    tag.isKey = true ∧ t.Bears c tag (.model m.id) := by
  obtain ⟨tags, possible, listed, mem, same⟩ := h
  unfold possibleTags at possible
  dsimp only at possible
  split at possible
  · next keys =>
    cases possible
    have source := Value.mem_of_mem_distinct mem
    have key := Value.areKeys_iff.mp keys listed source
    have equal := same_symm key same
    refine ⟨isKey_of_same key same, ?_⟩
    simp only [List.mem_append, Option.mem_toList, List.mem_singleton] at source
    rcases source with ((further | own) | other) | rfl
    · exact .further there (List.any_eq_true.mpr ⟨listed, further, equal⟩)
    · unfold Model.ownTag? at own
      split at own
      · exact .own there (Option.some.inj own ▸ same)
      · cases own
    · exact .aliased (mem_aliasesFor.mp other) equal
    · exact .name there equal
  · cases possible

/-- Models of one number are one. -/
theorem eq_of_id_eq (grounded : c.Grounded) {own : Model} (there : m ∈ c.models)
    (own_there : own ∈ c.models) (h : Value.model own.id = .model m.id) : own = m := by
  have found := grounded.mem own_there
  rw [Value.model.inj h, grounded.mem there] at found
  exact (Option.some.inj found).symm

/-- A tag that stands for the model by one of the sources that are looked up is borne by it. -/
theorem bears_of_recognizes (there : m ∈ c.models) (h : t.recognizes m tag = true) :
    t.Bears c tag (.model m.id) := by
  unfold recognizes at h
  simp only [Bool.or_eq_true] at h
  rcases h with ((aliased | own) | name) | table
  · obtain ⟨k, listed, same⟩ := List.any_eq_true.mp aliased
    exact .aliased (mem_aliasesFor.mp listed) same
  · exact .own there own
  · exact .name there name
  · exact .table there table

/-- What is looked up as a model stands for it by one of the sources. -/
theorem recognizes_of_modelFor (grounded : c.Grounded) (there : m ∈ c.models)
    (h : t.modelFor c tag = .ok (.model m.id)) : tag.isKey = true ∧ t.recognizes m tag = true := by
  unfold modelFor at h
  split at h
  · cases h
  · next key =>
    refine ⟨by simpa using key, ?_⟩
    split at h
    · next aliased =>
      cases h
      obtain ⟨k, entry, same⟩ := Value.exists_of_lookup? aliased
      have listed := List.any_eq_true.mpr ⟨k, mem_aliasesFor.mpr entry, same⟩
      simp [recognizes, listed]
    · dsimp only at h
      generalize found : Option.or _ _ = other? at h
      cases other? with
      | none => cases h
      | some other =>
        have listed : other ∈ c.lookupOrder ∧ (other.morphClass.same tag = true ∨
            (tag.same (.text other.name) || tag.same other.tableName) = true) := by
          rcases Option.or_eq_some_iff.mp found with own | ⟨-, named⟩
          · have same := List.find?_some own
            exact ⟨List.mem_of_find?_eq_some own, .inl same⟩
          · have same := List.find?_some named
            exact ⟨List.mem_of_find?_eq_some named, .inr same⟩
        obtain ⟨id, -, known⟩ := List.mem_filterMap.mp listed.1
        obtain rfl := eq_of_id_eq grounded there (Array.mem_of_getElem? known) (Except.ok.inj h)
        rcases listed.2 with own | named
        · simp [recognizes, own]
        · rw [Bool.or_eq_true] at named
          rcases named with same | same <;> simp [recognizes, same]

/-- What a tag that a model bears is looked up as, if no tag has two bearers: the model, if the tag
is known by one of the sources that are looked up, and otherwise nothing. -/
theorem modelFor_of_bears (defined : c.Defined) (unshared : t.Unshared c) (there : m ∈ c.models)
    (given : tag.isNull = false) (key : tag.isKey = true) (bears : t.Bears c tag (.model m.id)) :
    t.modelFor c tag = .ok (if t.recognizes m tag then .model m.id else .null) := by
  have only {v : Value} (h : t.Bears c tag v) : v = .model m.id := unshared tag _ _ given h bears
  have same_model {own : Model} (own_there : own ∈ c.models)
      (h : t.Bears c tag (.model own.id)) : own = m :=
    eq_of_id_eq defined.grounded there own_there (only h)
  unfold modelFor
  rw [key]
  dsimp only [Bool.not_true, Bool.false_eq_true, if_false]
  cases aliased : Value.lookup? tag t.aliases with
  | some v =>
    obtain ⟨k, entry, same⟩ := Value.exists_of_lookup? aliased
    obtain rfl := only (.aliased entry same)
    have known : t.recognizes m tag = true := by
      have listed := List.any_eq_true.mpr ⟨k, mem_aliasesFor.mpr entry, same⟩
      simp [recognizes, listed]
    rw [known]
    rfl
  | none =>
    have unaliased : (t.aliasesFor (.model m.id)).any tag.same = false := by
      refine List.any_eq_false.mpr fun k entry => ?_
      simpa using Matches.lookup?_eq_none_iff.mp aliased _ (mem_aliasesFor.mp entry)
    have listed := defined.mem_lookupOrder.mpr there
    dsimp only
    cases own : c.lookupOrder.find? fun m => m.morphClass.same tag with
    | some other =>
      have mem := defined.mem_lookupOrder.mp (List.mem_of_find?_eq_some own)
      have same := List.find?_some own
      obtain rfl := same_model mem (.own mem same)
      simp [recognizes, same]
    | none =>
      have unnamed := List.find?_eq_none.mp own m listed
      cases named : c.findByName? tag with
      | some other =>
        have mem := defined.mem_lookupOrder.mp (List.mem_of_find?_eq_some named)
        have same := List.find?_some named
        rw [Bool.or_eq_true] at same
        have bears : t.Bears c tag (.model other.id) := same.elim (.name mem) (.table mem)
        obtain rfl := same_model mem bears
        rcases same with same | same <;> simp [recognizes, same]
      | none =>
        have nameless := List.find?_eq_none.mp named m listed
        simp only [Bool.or_eq_true, not_or] at nameless
        simp [recognizes, unaliased, unnamed, nameless]

theorem modelFor_of_accepts (defined : c.Defined) (unshared : t.Unshared c) (there : m ∈ c.models)
    (given : tag.isNull = false) (accepted : t.Accepts m tag) :
    t.modelFor c tag = .ok (if t.recognizes m tag then .model m.id else .null) :=
  modelFor_of_bears defined unshared there given (accepted.bears there).1 (accepted.bears there).2

/-- The tags that are looked up as a model, if no tag has two bearers. -/
theorem modelFor_eq_model_iff (defined : c.Defined) (unshared : t.Unshared c)
    (there : m ∈ c.models) (given : tag.isNull = false) :
    t.modelFor c tag = .ok (.model m.id) ↔ tag.isKey = true ∧ t.recognizes m tag = true := by
  refine ⟨recognizes_of_modelFor defined.grounded there, fun ⟨key, known⟩ => ?_⟩
  have bears := bears_of_recognizes there known
  have looked := modelFor_of_bears defined unshared there given key bears
  rwa [known, if_pos rfl] at looked

/-- The tag written for a model is one by which it is known. -/
theorem recognizes_tagFor {s : String} (written : t.tagFor m = .text s) :
    t.recognizes m (.text s) = true := by
  have self : (Value.text s).same (.text s) = true := beq_self_eq_true s
  unfold tagFor at written
  split at written
  · next own =>
    unfold Model.ownTag? at own
    split at own
    · obtain rfl := Option.some.inj own
      simp [recognizes, written, self]
    · cases own
  · cases aliases : t.aliasesFor (.model m.id) with
    | nil =>
      rw [aliases] at written
      have name : Value.text m.name = .text s := written
      simp [recognizes, name, self]
    | cons first rest =>
      rw [aliases] at written
      obtain rfl : first = .text s := written
      simp [recognizes, aliases, self]

/-- The texts that the classes of a catalog give themselves and are known by, each with its bearer:
if none has two, no tag does, as long as there are no aliases. -/
theorem unshared_of_bearers (bearers : List (String × ModelId))
    (listed : ∀ m ∈ c.models,
      (m.morphClass = .null ∨ ∃ s, m.morphClass = .text s ∧ (s, m.id) ∈ bearers) ∧
      (∀ v ∈ m.morphTypes, ∃ s, v = .text s ∧ (s, m.id) ∈ bearers) ∧ (m.name, m.id) ∈ bearers ∧
      ∃ s, m.tableName = .text s ∧ (s, m.id) ∈ bearers)
    (one : ∀ e ∈ bearers, ∀ e' ∈ bearers, e.1 = e'.1 → e.2 = e'.2) : empty.Unshared c := by
  have text {tag : Value} {s : String} (h : tag.same (.text s) = true) : tag = .text s := by
    cases tag <;> simp_all [Value.same, Value.toInt?]
  have borne {tag v : Value} (given : tag.isNull = false) (h : empty.Bears c tag v) :
      ∃ s id, tag = .text s ∧ v = .model id ∧ (s, id) ∈ bearers := by
    cases h with
    | aliased there => cases there
    | @own m there same =>
      rcases (listed m there).1 with none_ | ⟨s, own, mem⟩
      · rw [none_] at same
        cases tag <;> cases same
        cases given
      · rw [own] at same
        exact ⟨s, _, Value.eq_of_same_of_isAtom rfl same, rfl, mem⟩
    | @further m there same =>
      obtain ⟨v, own, same⟩ := List.any_eq_true.mp same
      obtain ⟨s, rfl, mem⟩ := (listed m there).2.1 v own
      exact ⟨s, _, text same, rfl, mem⟩
    | @name m there same => exact ⟨_, _, text same, rfl, (listed m there).2.2.1⟩
    | @table m there same =>
      obtain ⟨s, own, mem⟩ := (listed m there).2.2.2
      exact ⟨s, _, text (own ▸ same), rfl, mem⟩
  intro tag v w given hv hw
  obtain ⟨s, i, rfl, rfl, first⟩ := borne given hv
  obtain ⟨t, j, equal, rfl, second⟩ := borne given hw
  exact congrArg Value.model (one _ first _ second (Value.text.inj equal))

end TagMap

end Relata
