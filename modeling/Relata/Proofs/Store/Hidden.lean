import Mathlib.Data.List.Forall2
import Mathlib.Tactic.Choose
import Relata.Proofs.Query.Built
import Relata.Store.Dump

/-!
What a dump tells of what a class hides. Two graphs of objects that differ in nothing but the hidden
names have the same dumps wherever both have one: an object is dumped to entries that are dumped to
the same, and the hidden ones are gone. A hidden field is dumped before it goes, though, so it can
still fail.
-/

namespace Relata.Dump

section Agreement

variable {α β : Type} {lenient : Prop} {x y : Except Error α}

/-- The two results are the same, except that one of them may have failed if that is allowed. -/
def Agree (lenient : Prop) (x y : Except Error α) : Prop :=
  x = y ∨ lenient ∧ ((∃ e, x = .error e) ∨ ∃ e, y = .error e)

namespace Agree

theorem refl (x : Except Error α) : Agree lenient x x := .inl rfl

theorem eq_of_ok {a b : α} (h : Agree lenient (.ok a) (.ok b)) : a = b := by
  rcases h with same | ⟨-, ⟨e, failed⟩ | ⟨e, failed⟩⟩
  · exact Except.ok.inj same
  · cases failed
  · cases failed

theorem eq_of_strict (h : Agree False x y) : x = y := h.resolve_right fun absurd => absurd.1

theorem bind {f g : α → Except Error β} (h : Agree lenient x y)
    (step : ∀ a, Agree lenient (f a) (g a)) : Agree lenient (x >>= f) (y >>= g) := by
  rcases h with rfl | ⟨allowed, ⟨e, rfl⟩ | ⟨e, rfl⟩⟩
  · cases x with
    | ok a => exact step a
    | error e => exact .refl _
  · exact .inr ⟨allowed, .inl ⟨e, rfl⟩⟩
  · exact .inr ⟨allowed, .inr ⟨e, rfl⟩⟩

theorem map (f : α → β) (h : Agree lenient x y) : Agree lenient (f <$> x) (f <$> y) := by
  rw [map_eq_pure_bind, map_eq_pure_bind]
  exact h.bind fun _ => .refl _

theorem mapM {γ : Type} {f : α → Except Error γ} {g : β → Except Error γ} {xs : List α}
    {ys : List β} (h : List.Forall₂ (fun a b => Agree lenient (f a) (g b)) xs ys) :
    Agree lenient (xs.mapM f) (ys.mapM g) := by
  induction h with
  | nil => exact .refl _
  | cons first _ ih =>
    rw [List.mapM_cons, List.mapM_cons]
    exact first.bind fun _ => ih.bind fun _ => .refl _

/-- Results that are not used have to be there, or failures allowed. -/
theorem skip {γ : Type} {z : Except Error β} {u v : Except Error γ}
    (there : lenient ∨ (∃ a, x = .ok a) ∧ ∃ b, z = .ok b) (h : Agree lenient u v) :
    Agree lenient (x >>= fun _ => u) (z >>= fun _ => v) := by
  cases x with
  | error e =>
    rcases there with allowed | ⟨⟨a, absurd⟩, -⟩
    · exact .inr ⟨allowed, .inl ⟨e, rfl⟩⟩
    · cases absurd
  | ok a =>
    cases z with
    | error e =>
      rcases there with allowed | ⟨-, b, absurd⟩
      · exact .inr ⟨allowed, .inr ⟨e, rfl⟩⟩
      · cases absurd
    | ok b => exact h

end Agree

theorem ok_of_map {f : α → β} {b : β} (h : f <$> x = .ok b) : ∃ a, x = .ok a ∧ f a = b := by
  cases x with
  | ok a => exact ⟨a, rfl, Except.ok.inj h⟩
  | error e => cases h

theorem forall₂_of_mapM {f : α → Except Error β} {items : List α} {bs : List β}
    (h : items.mapM f = .ok bs) : List.Forall₂ (fun a b => f a = .ok b) items bs := by
  induction items generalizing bs with
  | nil =>
    cases h
    exact .nil
  | cons a rest ih =>
    rw [List.mapM_cons] at h
    obtain ⟨b, first, h⟩ := ok_of_bind h
    obtain ⟨others, more, h⟩ := ok_of_bind h
    cases h
    exact .cons first (ih more)

theorem mapM_returns_iff {f : α → Except Error β} {items : List α} :
    (∃ bs, items.mapM f = .ok bs) ↔ ∀ a ∈ items, ∃ b, f a = .ok b := by
  refine ⟨fun ⟨bs, made⟩ a there => ?_, fun h => ?_⟩
  · obtain ⟨b, -, value⟩ := (exists_of_mapM made).1 a there
    exact ⟨b, value⟩
  · induction items with
    | nil => exact ⟨[], rfl⟩
    | cons a rest ih =>
      obtain ⟨b, first⟩ := h a (.head _)
      obtain ⟨bs, more⟩ := ih fun a there => h a (.tail _ there)
      exact ⟨b :: bs, by rw [List.mapM_cons, first, more]; rfl⟩

end Agreement

/-- The value is no list, no dictionary and no reference to objects. -/
def isSingle : Value → Bool
  | .object _ | .collection _ | .list _ | .tuple _ | .dict _ => false
  | _ => true

section Likeness

variable (env env' : Env) (R : ObjectId → ObjectId → Prop)

mutual

/-- The values are the same but for the objects in them, which are related one by one. -/
inductive Alike : Value → Value → Prop
  | object {a b : ObjectId} : R a b → Alike (.object a) (.object b)
  | collection {c d : CollectionId} : List.Forall₂ R (env.membersOf c) (env'.membersOf d) →
    Alike (.collection c) (.collection d)
  | list {xs ys : List Value} : AlikeItems xs ys → Alike (.list xs) (.list ys)
  | tuple {xs ys : List Value} : AlikeItems xs ys → Alike (.tuple xs) (.tuple ys)
  | dict {xs ys : List (Value × Value)} : AlikeEntries xs ys → Alike (.dict xs) (.dict ys)
  | single {v : Value} : isSingle v = true → Alike v v

inductive AlikeItems : List Value → List Value → Prop
  | nil : AlikeItems [] []
  | cons {v w : Value} {xs ys : List Value} : Alike v w → AlikeItems xs ys →
    AlikeItems (v :: xs) (w :: ys)

inductive AlikeEntries : List (Value × Value) → List (Value × Value) → Prop
  | nil : AlikeEntries [] []
  | cons {k v w : Value} {xs ys : List (Value × Value)} : Alike v w → AlikeEntries xs ys →
    AlikeEntries ((k, v) :: xs) ((k, w) :: ys)

end

/-- Entries under one name that are alike unless the object hides the name. -/
def AlikeUnder (o : Entity) (e e' : Value × Value) : Prop :=
  e.1 = e'.1 ∧ (env.hides o e.1 = true ∨ Alike env env' R e.2 e'.2)

/-- Objects of one class with the same names that are alike in all that is not hidden. -/
structure AlikeObjects (o o' : Entity) : Prop where
  ofClass : env.modelOf? o = env'.modelOf? o'
  row : List.Forall₂ (AlikeUnder env env' R o) o.row o'.row
  relations : List.Forall₂ (AlikeUnder env env' R o) o.loadedRelations o'.loadedRelations

/-- Related objects are there, and alike in all that is not hidden. -/
def Twins : Prop := ∀ a b, R a b → ∃ o o', env.object? a = some o ∧ env'.object? b = some o' ∧
  AlikeObjects env env' R o o'

end Likeness

section Forms

variable (env : Env) (plain : Bool) (P : ObjectId → Prop)

/-- Whatever is in the value has a form in a dump, if each of the objects in it has one that `P`
holds of. -/
inductive Formed : Value → Prop
  | object {id : ObjectId} : P id → Formed (.object id)
  | collection {c : CollectionId} : (∀ id ∈ env.membersOf c, P id) → Formed (.collection c)
  | list {items : List Value} : (∀ v ∈ items, Formed v) → Formed (.list items)
  | tuple {items : List Value} : (∀ v ∈ items, Formed v) → Formed (.tuple items)
  | dict {entries : List (Value × Value)} : (∀ e ∈ entries, Formed e.2) → Formed (.dict entries)
  | single {v w : Value} : isSingle v = true → v.form plain = .ok w → Formed v

/-- What the object hides of its fields and columns is data without any objects in it. -/
def HidesData (a : ObjectId) : Prop :=
  ∀ o, env.object? a = some o → ∀ e ∈ o.row, env.hides o e.1 = true →
    Formed env plain (fun _ => False) e.2

end Forms

variable {env env' : Env} {R : ObjectId → ObjectId → Prop} {plain : Bool} {P : ObjectId → Prop}
  {lenient : Prop} {f g : ObjectId → Except Error Value}

theorem expand_of_single {members : CollectionId → List ObjectId} {v : Value}
    (single : isSingle v = true) : v.expand plain f members = v.form plain := by
  cases v <;> first | rfl | cases single

theorem expandItems_eq_mapM (members : CollectionId → List ObjectId) (items : List Value) :
    Value.expandItems plain f members items = items.mapM (Value.expand plain f members) := by
  induction items with
  | nil => rfl
  | cons v rest ih => rw [Value.expandItems, ih, List.mapM_cons]

theorem expandEntries_eq_mapM (members : CollectionId → List ObjectId)
    (entries : List (Value × Value)) : Value.expandEntries plain f members entries =
      entries.mapM fun e => (e.1.keyForm plain, ·) <$> e.2.expand plain f members := by
  induction entries with
  | nil => rfl
  | cons e rest ih =>
    rw [Value.expandEntries, ih, List.mapM_cons]
    cases e.2.expand plain f members <;> rfl

mutual

/-- Values that are alike are expanded alike, if the objects in them are dumped alike. -/
theorem agree_expand (same : ∀ a b, R a b → Agree lenient (f a) (g b)) {v w : Value} :
    Alike env env' R v w → Agree lenient
      (v.expand plain f env.membersOf) (w.expand plain g env'.membersOf)
  | .object related => same _ _ related
  | .collection related => (Agree.mapM (related.imp same)).map _
  | .list related => (agree_expandItems same related).map _
  | .tuple related => (agree_expandItems same related).map _
  | .dict related => (agree_expandEntries same related).map _
  | .single single => by
    rw [expand_of_single single, expand_of_single single]
    exact .refl _

theorem agree_expandItems (same : ∀ a b, R a b → Agree lenient (f a) (g b))
    {xs ys : List Value} : AlikeItems env env' R xs ys → Agree lenient
      (Value.expandItems plain f env.membersOf xs) (Value.expandItems plain g env'.membersOf ys)
  | .nil => .refl _
  | .cons first more => (agree_expand same first).bind fun _ =>
      (agree_expandItems same more).bind fun _ => .refl _

theorem agree_expandEntries (same : ∀ a b, R a b → Agree lenient (f a) (g b))
    {xs ys : List (Value × Value)} : AlikeEntries env env' R xs ys → Agree lenient
      (Value.expandEntries plain f env.membersOf xs)
      (Value.expandEntries plain g env'.membersOf ys)
  | .nil => .refl _
  | .cons first more => (agree_expand same first).bind fun _ =>
      (agree_expandEntries same more).bind fun _ => .refl _

end

/-- What has a form is expanded, if the objects in it are dumped. -/
theorem expand_of_formed (dumps : ∀ a, P a → ∃ x, f a = .ok x) {v : Value}
    (formed : Formed env plain P v) : ∃ w, v.expand plain f env.membersOf = .ok w := by
  induction formed with
  | object holds => exact dumps _ holds
  | collection holds =>
    obtain ⟨items, found⟩ := mapM_returns_iff.mpr fun a there => dumps a (holds a there)
    exact ⟨.list items, by simp only [Value.expand, found]; rfl⟩
  | list _ ih =>
    obtain ⟨items, found⟩ := mapM_returns_iff.mpr ih
    exact ⟨.list items, by simp only [Value.expand, expandItems_eq_mapM, found]; rfl⟩
  | tuple _ ih =>
    obtain ⟨items, found⟩ := mapM_returns_iff.mpr ih
    exact ⟨Value.tupleForm plain items,
      by simp only [Value.expand, expandItems_eq_mapM, found]; rfl⟩
  | dict _ ih =>
    obtain ⟨entries, found⟩ := mapM_returns_iff.mpr fun e there => by
      obtain ⟨w, made⟩ := ih e there
      exact ⟨(e.1.keyForm plain, w), congrArg (_ <$> ·) made⟩
    exact ⟨.dict entries, by simp only [Value.expand, expandEntries_eq_mapM, found]; rfl⟩
  | single single form => exact ⟨_, (expand_of_single single).trans form⟩

theorem hides_eq {o o' : Entity} (ofClass : env.modelOf? o = env'.modelOf? o') :
    env.hides o = env'.hides o' := by
  funext name
  rw [Env.hides, ofClass, Env.hides]

theorem dumpEntry_bind {β : Type} (object : ObjectId → Except Error Value) (e : Value × Value)
    (k : Value × Value → Except Error β) : env.dumpEntry plain object e >>= k =
      e.2.expand plain object env.membersOf >>= fun w => k (e.1, w) := by
  rw [Env.dumpEntry]
  cases e.2.expand plain object env.membersOf <;> rfl

/-- Items of which some are dropped after they were all gone through. -/
theorem filter_mapM_cons {α β : Type} (f : α → Except Error β) (p : β → Bool) (a : α)
    (rest : List α) : (List.filter p) <$> (a :: rest).mapM f = f a >>= fun b =>
      ((List.filter p) <$> rest.mapM f) >>= fun bs => pure (if p b then b :: bs else bs) := by
  rw [List.mapM_cons]
  cases f a with
  | error e => rfl
  | ok b =>
    cases rest.mapM f with
    | error e => rfl
    | ok bs =>
      cases h : p b <;>
        simp [h, pure, Except.pure, bind, Except.bind, Functor.map, Except.map]

section Objects

variable {o o' : Entity}

/-- The rows of objects that are alike come to the same once the hidden names are gone, if what is
hidden can be dumped or failures are allowed. -/
theorem agree_row (same : ∀ a b, R a b → Agree lenient (f a) (g b)) (kept : Value → Bool)
    {xs ys : List (Value × Value)}
    (alike : List.Forall₂ (AlikeUnder env env' R o) xs ys)
    (careful : lenient ∨ (∀ e ∈ xs, env.hides o e.1 = true →
        ∃ w, e.2.expand plain f env.membersOf = .ok w) ∧ ∀ e ∈ ys, env.hides o e.1 = true →
        ∃ w, e.2.expand plain g env'.membersOf = .ok w) :
    Agree lenient
      ((List.filter fun e => !env.hides o e.1) <$>
        (xs.filter fun e => kept e.1).mapM (env.dumpEntry plain f))
      ((List.filter fun e => !env.hides o e.1) <$>
        (ys.filter fun e => kept e.1).mapM (env'.dumpEntry plain g)) := by
  induction alike with
  | nil => exact .refl _
  | @cons e e' xs ys first _ ih =>
    obtain ⟨name, alike⟩ := first
    have rest := ih (careful.imp_right fun ⟨left, right⟩ =>
      ⟨fun e there => left e (.tail _ there), fun e there => right e (.tail _ there)⟩)
    cases keep : kept e.1 with
    | false => simpa [List.filter_cons, keep, ← name] using rest
    | true =>
      have keep' : kept e'.1 = true := name ▸ keep
      rw [List.filter_cons_of_pos (by simpa using keep),
        List.filter_cons_of_pos (by simpa using keep'), filter_mapM_cons, filter_mapM_cons,
        dumpEntry_bind, dumpEntry_bind, ← name]
      rcases alike with hidden | alike
      · simp only [hidden, Bool.not_true, Bool.false_eq_true, if_false, bind_pure]
        refine Agree.skip (careful.imp_right fun ⟨left, right⟩ => ?_) rest
        exact ⟨left e (.head _) hidden, right e' (.head _) (name ▸ hidden)⟩
      · exact (agree_expand same alike).bind fun w => rest.bind fun _ => .refl _

/-- The relations of objects that are alike come to the same, but for the hidden ones. -/
theorem agree_relations (same : ∀ a b, R a b → Agree lenient (f a) (g b)) (kept : Value → Bool)
    {xs ys : List (Value × Value)} (alike : List.Forall₂ (AlikeUnder env env' R o) xs ys) :
    Agree lenient
      (((xs.filter fun e => kept e.1).filter fun e => !env.hides o e.1).mapM
        (env.dumpEntry plain f))
      (((ys.filter fun e => kept e.1).filter fun e => !env.hides o e.1).mapM
        (env'.dumpEntry plain g)) := by
  induction alike with
  | nil => exact .refl _
  | @cons e e' xs ys first _ ih =>
    obtain ⟨name, alike⟩ := first
    cases keep : kept e.1 with
    | false => simpa [List.filter_cons, keep, ← name] using ih
    | true =>
      cases hidden : env.hides o e.1 with
      | true => simpa [List.filter_cons, keep, hidden, ← name] using ih
      | false =>
        have alike := alike.resolve_left (by simp [hidden])
        simp only [List.filter_cons, ← name, keep, hidden, Bool.not_false, if_true,
          List.mapM_cons, dumpEntry_bind]
        exact (agree_expand same alike).bind fun w => ih.bind fun _ => .refl _

end Objects

/-- The dumps of related objects agree, at each depth. -/
theorem agree_dumpUpTo (twins : Twins env env' R)
    (careful : lenient ∨ ∀ a b, R a b → HidesData env plain a ∧ HidesData env' plain b)
    (depth : Nat) : ∀ excluded a b, R a b → Agree lenient
      (env.dumpUpTo plain depth excluded a) (env'.dumpUpTo plain depth excluded b) := by
  induction depth with
  | zero => exact fun _ _ _ _ => .refl _
  | succ depth ih =>
    intro excluded a b related
    obtain ⟨o, o', found, found', alike⟩ := twins a b related
    have hides := hides_eq alike.ofClass
    have fine : lenient ∨ (∀ e ∈ o.row, env.hides o e.1 = true →
        ∃ w, e.2.expand plain (env.dumpUpTo plain depth []) env.membersOf = .ok w) ∧
        ∀ e ∈ o'.row, env.hides o e.1 = true →
          ∃ w, e.2.expand plain (env'.dumpUpTo plain depth []) env'.membersOf = .ok w := by
      refine careful.imp_right fun data => ?_
      obtain ⟨left, right⟩ := data a b related
      refine ⟨fun e there hidden => ?_, fun e there hidden => ?_⟩
      · exact expand_of_formed (fun _ absurd => absurd.elim) (left o found e there hidden)
      · exact expand_of_formed (fun _ absurd => absurd.elim)
          (right o' found' e there (hides ▸ hidden))
    let kept (name : Value) : Bool := !excluded.any fun other => name.same (.text other)
    simp only [Env.dumpUpTo, found, found', ← hides]
    exact (agree_row (ih []) kept alike.row fine).bind fun own =>
      (agree_relations (ih []) kept alike.relations).bind fun relations => .refl _

/-- The values of each object hold objects of a lower rank only, which are there, and have a form in
a dump; what is hidden of the relations is of no account. -/
def Layered (env : Env) (plain : Bool) (rank : ObjectId → Nat) : Prop :=
  ∀ a o, env.object? a = some o → ∀ e : Value × Value,
    (e ∈ o.row ∨ e ∈ o.loadedRelations ∧ env.hides o e.1 = false) →
    Formed env plain (fun b => (env.object? b).isSome ∧ rank b < rank a) e.2

theorem dumpEntry_returns_iff {e : Value × Value} : (∃ b, env.dumpEntry plain f e = .ok b) ↔
    ∃ w, e.2.expand plain f env.membersOf = .ok w := by
  refine ⟨fun ⟨b, dumped⟩ => ?_, fun ⟨w, expanded⟩ => ⟨(e.1, w), ?_⟩⟩
  · obtain ⟨w, expanded, -⟩ := ok_of_bind dumped
    exact ⟨w, expanded⟩
  · rw [Env.dumpEntry, expanded]
    rfl

/-- An object is dumped if and only if each of its fields and columns that are not excluded is, be
it hidden or not, and each relation that is neither excluded nor hidden. -/
theorem dumpUpTo_returns_iff {a : ObjectId} {o : Entity} (found : env.object? a = some o)
    (depth : Nat) (excluded : List String) :
    (∃ v, env.dumpUpTo plain (depth + 1) excluded a = .ok v) ↔
      ∀ e : Value × Value, (e ∈ o.row ∨ e ∈ o.loadedRelations ∧ env.hides o e.1 = false) →
        (∀ name ∈ excluded, e.1.same (.text name) = false) →
        ∃ w, e.2.expand plain (env.dumpUpTo plain depth []) env.membersOf = .ok w := by
  let kept (e : Value × Value) : Bool := !excluded.any fun name => e.1.same (.text name)
  have keeps (e : Value × Value) : kept e = true ↔
      ∀ name ∈ excluded, e.1.same (.text name) = false := by simp [kept]
  let dumped := env.dumpEntry plain (env.dumpUpTo plain depth [])
  have split : (∃ v, env.dumpUpTo plain (depth + 1) excluded a = .ok v) ↔
      (∃ rows, (o.row.filter kept).mapM dumped = .ok rows) ∧ ∃ relations,
        ((o.loadedRelations.filter kept).filter fun e => !env.hides o e.1).mapM dumped =
          .ok relations := by
    simp only [Env.dumpUpTo, found]
    refine ⟨fun ⟨v, h⟩ => ?_, fun ⟨⟨rows, own⟩, relations, others⟩ => ⟨_, by rw [own, others]; rfl⟩⟩
    obtain ⟨_, own, h⟩ := ok_of_bind h
    obtain ⟨rows, own, -⟩ := ok_of_map own
    obtain ⟨relations, others, -⟩ := ok_of_bind h
    exact ⟨⟨rows, own⟩, relations, others⟩
  rw [split, mapM_returns_iff, mapM_returns_iff]
  refine ⟨fun ⟨own, others⟩ e there name => ?_, fun h => ⟨fun e there => ?_, fun e there => ?_⟩⟩
  · rcases there with there | ⟨there, shown⟩
    · exact dumpEntry_returns_iff.mp (own e (List.mem_filter.mpr ⟨there, (keeps e).mpr name⟩))
    · exact dumpEntry_returns_iff.mp (others e (List.mem_filter.mpr
        ⟨List.mem_filter.mpr ⟨there, (keeps e).mpr name⟩, by simpa using shown⟩))
  · obtain ⟨there, name⟩ := List.mem_filter.mp there
    exact dumpEntry_returns_iff.mpr (h e (.inl there) ((keeps e).mp name))
  · obtain ⟨there, shown⟩ := List.mem_filter.mp there
    obtain ⟨there, name⟩ := List.mem_filter.mp there
    exact dumpEntry_returns_iff.mpr (h e (.inr ⟨there, by simpa using shown⟩) ((keeps e).mp name))

/-- An object whose rank is below the depth is dumped. -/
theorem exists_dumpUpTo {rank : ObjectId → Nat} (layered : Layered env plain rank) (depth : Nat) :
    ∀ excluded a, (env.object? a).isSome → rank a < depth →
      ∃ v, env.dumpUpTo plain depth excluded a = .ok v := by
  induction depth with
  | zero => exact fun _ _ _ absurd => (Nat.not_lt_zero _ absurd).elim
  | succ depth ih =>
    intro excluded a there lt
    obtain ⟨o, found⟩ := Option.isSome_iff_exists.mp there
    rw [dumpUpTo_returns_iff found]
    exact fun e own _ => expand_of_formed
      (fun b ⟨there, below⟩ => ih [] b there (by omega)) (layered a o found e own)

/-- The second value is a dump of the first: wherever the first has an object, the second has a
dictionary of entries of that object, none of them under a name that its class hides. -/
inductive Shows (env : Env) (plain : Bool) : Value → Value → Prop
  | object {id : ObjectId} {o : Entity} {entries : List (Value × Value)}
      (source : Value × Value → Value × Value) : env.object? id = some o →
      (∀ e ∈ entries, env.hides o e.1 = false) →
      (∀ e ∈ entries, source e ∈ o.row ∨ source e ∈ o.loadedRelations) →
      (∀ e ∈ entries, (source e).1 = e.1 ∨ (source e).1.same e.1 = true) →
      (∀ e ∈ entries, Shows env plain (source e).2 e.2) →
      Shows env plain (.object id) (.dict entries)
  | collection {c : CollectionId} {shown : List Value} :
      List.Forall₂ (Shows env plain) ((env.membersOf c).map .object) shown →
      Shows env plain (.collection c) (.list shown)
  | list {items shown : List Value} : List.Forall₂ (Shows env plain) items shown →
      Shows env plain (.list items) (.list shown)
  | tuple {items shown : List Value} : List.Forall₂ (Shows env plain) items shown →
      Shows env plain (.tuple items) (Value.tupleForm plain shown)
  | dict {entries : List (Value × Value)} {shown : List Value} :
      List.Forall₂ (Shows env plain) (entries.map (·.2)) shown →
      Shows env plain (.dict entries)
        (.dict ((entries.map fun e => e.1.keyForm plain).zip shown))
  | single {v w : Value} : isSingle v = true → v.form plain = .ok w → Shows env plain v w

mutual

/-- What a value is expanded to shows it, if what an object is dumped to does. -/
theorem shows_expand (dumps : ∀ a x, f a = .ok x → Shows env plain (.object a) x) :
    ∀ v w, v.expand plain f env.membersOf = .ok w → Shows env plain v w
  | .object a, w, h => dumps a w h
  | .collection c, _, h => by
    simp only [Value.expand] at h
    obtain ⟨shown, found, rfl⟩ := ok_of_map h
    exact .collection (List.forall₂_map_left_iff.mpr ((forall₂_of_mapM found).imp dumps))
  | .list items, _, h => by
    simp only [Value.expand] at h
    obtain ⟨shown, found, rfl⟩ := ok_of_map h
    exact .list (shows_expandItems dumps items shown found)
  | .tuple items, _, h => by
    simp only [Value.expand] at h
    obtain ⟨shown, found, rfl⟩ := ok_of_map h
    exact .tuple (shows_expandItems dumps items shown found)
  | .dict entries, _, h => by
    simp only [Value.expand] at h
    obtain ⟨shown, found, rfl⟩ := ok_of_map h
    obtain ⟨values, shows, rfl⟩ := shows_expandEntries dumps entries shown found
    exact .dict shows
  | .null, _, h | .bool _, _, h | .int _, _, h | .float _, _, h | .text _, _, h | .time _, _, h
  | .model _, _, h | .query _, _, h | .registry _, _, h | .tagMap _, _, h | .task _, _, h
  | .relation _ _, _, h | .failure _, _, h | .portrait _, _, h | .recipe _ _, _, h
  | .draft _ _, _, h | .parameter _, _, h | .variable _ _, _, h | .thrown _, _, h =>
    .single rfl h

theorem shows_expandItems (dumps : ∀ a x, f a = .ok x → Shows env plain (.object a) x) :
    ∀ items shown, Value.expandItems plain f env.membersOf items = .ok shown →
      List.Forall₂ (Shows env plain) items shown
  | [], _, h => by
    cases h
    exact .nil
  | v :: rest, _, h => by
    simp only [Value.expandItems] at h
    obtain ⟨w, first, h⟩ := ok_of_bind h
    obtain ⟨others, more, h⟩ := ok_of_bind h
    cases h
    exact .cons (shows_expand dumps v w first) (shows_expandItems dumps rest others more)

theorem shows_expandEntries (dumps : ∀ a x, f a = .ok x → Shows env plain (.object a) x) :
    ∀ entries shown, Value.expandEntries plain f env.membersOf entries = .ok shown →
      ∃ values, List.Forall₂ (Shows env plain) (entries.map (·.2)) values ∧
        (entries.map fun e => e.1.keyForm plain).zip values = shown
  | [], _, h => by
    cases h
    exact ⟨[], .nil, rfl⟩
  | (k, v) :: rest, _, h => by
    simp only [Value.expandEntries] at h
    obtain ⟨w, first, h⟩ := ok_of_bind h
    obtain ⟨others, more, h⟩ := ok_of_bind h
    cases h
    obtain ⟨values, shows, rfl⟩ := shows_expandEntries dumps rest others more
    exact ⟨w :: values, .cons (shows_expand dumps v w first) shows, rfl⟩

end

theorem ok_of_dumpEntry {e b : Value × Value} (h : env.dumpEntry plain f e = .ok b) :
    b.1 = e.1 ∧ e.2.expand plain f env.membersOf = .ok b.2 := by
  obtain ⟨w, expanded, h⟩ := ok_of_bind h
  cases h
  exact ⟨rfl, expanded⟩

/-- An entry after one is put in: its value is that of an entry from before or the new one, under a
name that is the same. -/
theorem mem_put {entries : List (Value × Value)} {key v : Value} {e : Value × Value}
    (there : e ∈ Value.put entries key v) :
    (e ∈ entries ∨ e.2 = v ∧ (key = e.1 ∨ key.same e.1 = true)) ∧
      (e.1 = key ∨ ∃ old ∈ entries, old.1 = e.1) := by
  unfold Value.put at there
  split at there
  · obtain ⟨old, own, rfl⟩ := List.mem_map.mp there
    split
    · next same => exact ⟨.inr ⟨rfl, .inr same⟩, .inr ⟨old, own, rfl⟩⟩
    · exact ⟨.inl own, .inr ⟨old, own, rfl⟩⟩
  · rcases List.mem_append.mp there with own | last
    · exact ⟨.inl own, .inr ⟨e, own, rfl⟩⟩
    · obtain rfl := List.mem_singleton.mp last
      exact ⟨.inr ⟨rfl, .inl rfl⟩, .inl rfl⟩

/-- The entry bears the name of one of the pool, and has the value of one under the same name. -/
def Drawn (pool : List (Value × Value)) (e : Value × Value) : Prop :=
  (∃ s ∈ pool, s.1 = e.1) ∧ ∃ s ∈ pool, s.2 = e.2 ∧ (s.1 = e.1 ∨ s.1.same e.1 = true)

theorem drawn_self {pool : List (Value × Value)} {e : Value × Value} (there : e ∈ pool) :
    Drawn pool e :=
  ⟨⟨e, there, rfl⟩, e, there, rfl, .inl rfl⟩

/-- Entries put in one after the other are drawn from where they come from. -/
theorem drawn_foldl_put {pool more entries : List (Value × Value)} (own : ∀ s ∈ more, s ∈ pool)
    (before : ∀ e ∈ entries, Drawn pool e) :
    ∀ e ∈ more.foldl (fun entries e => Value.put entries e.1 e.2) entries, Drawn pool e := by
  induction more generalizing entries with
  | nil => exact before
  | cons first rest ih =>
    refine ih (fun s there => own s (.tail _ there)) fun e there => ?_
    have new := own first (.head _)
    obtain ⟨value, name⟩ := mem_put there
    refine ⟨?_, ?_⟩
    · rcases name with key | ⟨old, there, same⟩
      · exact ⟨first, new, key.symm⟩
      · exact same ▸ (before old there).1
    · rcases value with there | ⟨value, name⟩
      · exact (before e there).2
      · exact ⟨first, new, value.symm, name⟩

/-- The names of an object stay as they are, if plain interchange data only has to hold texts. -/
theorem keyForm_eq {o : Entity} {s : Value × Value}
    (named : plain = true → ∀ s ∈ o.slots, ∃ name, s.1 = .text name)
    (there : s ∈ o.row ∨ s ∈ o.loadedRelations) : s.1.keyForm plain = s.1 := by
  have text (name : String) : (Value.text name).keyForm plain = .text name := by
    cases plain <;> rfl
  rcases there with own | loaded
  · obtain ⟨column, -, rfl⟩ := List.mem_map.mp own
    exact text column.1
  · cases plain with
    | false => rfl
    | true =>
      obtain ⟨slot, inside, found⟩ := List.mem_filterMap.mp loaded
      obtain ⟨name, same⟩ := named rfl slot inside
      obtain ⟨key, state⟩ := slot
      cases state with
      | loading => cases found
      | loaded v =>
        cases found
        exact same ▸ text name

/-- The entry has the name of one of the values of the object, which is not hidden, and shows it. -/
def Sourced (env : Env) (plain : Bool) (o : Entity) (e : Value × Value) : Prop :=
  env.hides o e.1 = false ∧
    ∃ s, (s ∈ o.row ∨ s ∈ o.loadedRelations) ∧ s.1 = e.1 ∧ Shows env plain s.2 e.2

theorem sourced_of_dumpEntry (dumps : ∀ a x, f a = .ok x → Shows env plain (.object a) x)
    {o : Entity} {s e : Value × Value} (own : s ∈ o.row ∨ s ∈ o.loadedRelations)
    (dumped : env.dumpEntry plain f s = .ok e) (shown : env.hides o e.1 = false) :
    Sourced env plain o e := by
  obtain ⟨name, expanded⟩ := ok_of_dumpEntry dumped
  exact ⟨shown, s, own, name.symm, shows_expand dumps _ _ expanded⟩

/-- Entries drawn from entries of the object make a dictionary that shows it. -/
theorem shows_of_drawn {a : ObjectId} {o : Entity} (found : env.object? a = some o)
    (named : plain = true → ∀ s ∈ o.slots, ∃ name, s.1 = .text name)
    {pool entries : List (Value × Value)} (sources : ∀ e ∈ pool, Sourced env plain o e)
    (drawn : ∀ e ∈ entries, Drawn pool e) :
    Shows env plain (.object a) (.dict (entries.map fun e => (e.1.keyForm plain, e.2))) := by
  have each : ∀ e ∈ entries.map fun e => (e.1.keyForm plain, e.2), env.hides o e.1 = false ∧
      ∃ s, (s ∈ o.row ∨ s ∈ o.loadedRelations) ∧ (s.1 = e.1 ∨ s.1.same e.1 = true) ∧
        Shows env plain s.2 e.2 := by
    intro e there
    obtain ⟨e, inside, rfl⟩ := List.mem_map.mp there
    obtain ⟨⟨bearer, own, name⟩, giver, given, value, same⟩ := drawn e inside
    obtain ⟨shown, s, bears, like, -⟩ := sources bearer own
    have key : e.1.keyForm plain = e.1 := by
      rw [← name, ← like]
      exact keyForm_eq named bears
    obtain ⟨-, t, gives, like, shows⟩ := sources giver given
    simp only [key]
    exact ⟨name ▸ shown, t, gives, like ▸ same, value ▸ shows⟩
  choose! source inside names shows using fun e there => (each e there).2
  exact .object source found (fun e there => (each e there).1) inside names shows

/-- A dump shows the object, at every depth. -/
theorem shows_dumpUpTo (named : plain = true → ∀ a o, env.object? a = some o → ∀ s ∈ o.slots,
    ∃ name, s.1 = .text name) (depth : Nat) : ∀ excluded a v,
    env.dumpUpTo plain depth excluded a = .ok v → Shows env plain (.object a) v := by
  induction depth with
  | zero => exact fun _ _ _ h => nomatch h
  | succ depth ih =>
    intro excluded a v h
    cases found : env.object? a with
    | none => simp [Env.dumpUpTo, found] at h
    | some o =>
      simp only [Env.dumpUpTo, found] at h
      obtain ⟨own, rows, h⟩ := ok_of_bind h
      obtain ⟨relations, others, h⟩ := ok_of_bind h
      obtain ⟨all, gone, rfl⟩ := ok_of_map rows
      cases h
      refine shows_of_drawn found (fun plain => named plain a o found) (fun e there => ?_)
        (drawn_foldl_put (fun s there => List.mem_append_right _ there)
          fun e there => drawn_self (List.mem_append_left _ there))
      rcases List.mem_append.mp there with there | there
      · obtain ⟨there, shown⟩ := List.mem_filter.mp there
        obtain ⟨s, inside, dumped⟩ := (exists_of_mapM gone).2 e there
        exact sourced_of_dumpEntry (ih []) (.inl (List.mem_of_mem_filter inside)) dumped
          (by simpa using shown)
      · obtain ⟨s, inside, dumped⟩ := (exists_of_mapM others).2 e there
        obtain ⟨inside, shown⟩ := List.mem_filter.mp inside
        exact sourced_of_dumpEntry (ih []) (.inr (List.mem_of_mem_filter inside)) dumped
          (by simpa [(ok_of_dumpEntry dumped).1] using shown)

/-- Two graphs of objects that differ in nothing but what their classes hide. Related objects have
the same dump wherever both have one, and the dumps are the same result, failures included, if all
that is hidden has a form in a dump. An object has a dump exactly if each of its fields and columns
that are not excluded has one, hidden or not, and each relation that is neither excluded nor hidden;
so it has one if values hold nothing but data and objects of lower rank. No dump has an entry, at
any depth, under a name that the class of the object there hides. -/
theorem dump_hides (twins : Twins env env' R) (plain : Bool) (excluded : List String)
    {a b : ObjectId} (related : R a b) :
    (∀ v w, env.dump plain excluded a = .ok v → env'.dump plain excluded b = .ok w → v = w) ∧
      ((∀ a b, R a b → HidesData env plain a ∧ HidesData env' plain b) →
        env.dump plain excluded a = env'.dump plain excluded b) ∧
      (∀ o, env.object? a = some o → ((∃ v, env.dump plain excluded a = .ok v) ↔
        ∀ e : Value × Value, (e ∈ o.row ∨ e ∈ o.loadedRelations ∧ env.hides o e.1 = false) →
          (∀ name ∈ excluded, e.1.same (.text name) = false) →
          ∃ w, e.2.expand plain (env.dumpUpTo plain (Env.dumpDepth - 1) []) env.membersOf =
            .ok w)) ∧
      (∀ rank, Layered env plain rank → rank a < Env.dumpDepth →
        ∃ v, env.dump plain excluded a = .ok v) ∧
      ((plain = true → ∀ a o, env.object? a = some o → ∀ s ∈ o.slots, ∃ name, s.1 = .text name) →
        ∀ v, env.dump plain excluded a = .ok v → Shows env plain (.object a) v) := by
  refine ⟨fun v w dumped dumped' => ?_, fun data => ?_, fun o found => ?_,
    fun rank layered lt => ?_, fun named v => shows_dumpUpTo named _ excluded a v⟩
  · have agree : Agree True (env.dump plain excluded a) (env'.dump plain excluded b) :=
      agree_dumpUpTo twins (.inl trivial) Env.dumpDepth excluded a b related
    rw [dumped, dumped'] at agree
    exact agree.eq_of_ok
  · exact (agree_dumpUpTo twins (.inr data) Env.dumpDepth excluded a b related).eq_of_strict
  · exact dumpUpTo_returns_iff found (Env.dumpDepth - 1) excluded
  · obtain ⟨o, -, found, -⟩ := twins a b related
    exact exists_dumpUpTo layered _ excluded a (by simp [found]) lt

/-- Two posts, the second of which is the sequel of the first; posts hide their tokens. -/
def serialEnv (token : Value) : Env :=
  { plainEnv with
    catalog := ⟨#[{ plainPost with hidden := [.text "token"] }]⟩
    objects := #[
      ⟨0, [("id", .int 1)], [("token", .text "x")], [(.text "sequel", .loaded (.object 1))], none⟩,
      ⟨0, [("id", .int 2)], [("token", token)], [], none⟩] }

theorem twins_serialEnv (s t : Value) :
    Twins (serialEnv s) (serialEnv t) fun a b => a = b ∧ a < 2 := by
  rintro a _ ⟨rfl, lt⟩
  match a, lt with
  | 0, _ => exact ⟨_, _, rfl, rfl, rfl,
      .cons ⟨rfl, .inr (.single rfl)⟩ (.cons ⟨rfl, .inl rfl⟩ .nil),
      .cons ⟨rfl, .inr (.object ⟨rfl, by decide⟩)⟩ .nil⟩
  | 1, _ => exact ⟨_, _, rfl, rfl, rfl,
      .cons ⟨rfl, .inr (.single rfl)⟩ (.cons ⟨rfl, .inl rfl⟩ .nil), .nil⟩

theorem hidesData_serialEnv {token w : Value} (single : isSingle token = true)
    (form : token.form plain = .ok w) (a : ObjectId) : HidesData (serialEnv token) plain a := by
  intro o found e there hidden
  have text (t : String) : Formed (serialEnv token) plain (fun _ => False) (.text t) := by
    cases plain <;> exact .single rfl rfl
  match a, found with
  | 0, found =>
    cases found
    rcases there with _ | ⟨_, _ | ⟨_, absurd⟩⟩
    · cases hidden
    · exact text "x"
    · cases absurd
  | 1, found =>
    cases found
    rcases there with _ | ⟨_, _ | ⟨_, absurd⟩⟩
    · cases hidden
    · exact .single single form
    · cases absurd

/-- The graphs differ in a token that is hidden below the object that is dumped. As plain
interchange data the one with a text is dumped without it, and the other is not dumped. -/
theorem hidden_token_spoils_dump :
    Twins (serialEnv (.text "y")) (serialEnv (.registry 0)) (fun a b => a = b ∧ a < 2) ∧
      (serialEnv (.text "y")).dump true [] 0 = .ok (.dict [(.text "id", .int 1),
        (.text "sequel", .dict [(.text "id", .int 2)])]) ∧
      (serialEnv (.registry 0)).dump true [] 0 = .error .undumpable ∧
      (serialEnv (.text "y")).dump false [] 0 = (serialEnv (.registry 0)).dump false [] 0 := by
  have twins := twins_serialEnv (.text "y") (.registry 0)
  have related : 0 = 0 ∧ 0 < 2 := ⟨rfl, by decide⟩
  obtain ⟨-, same, -⟩ := dump_hides twins false [] related
  exact ⟨twins, rfl, rfl, same fun a b _ =>
    ⟨hidesData_serialEnv rfl rfl a, hidesData_serialEnv rfl rfl b⟩⟩

end Relata.Dump
