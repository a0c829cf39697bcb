import Mathlib.Data.List.Lex
import Relata.Proofs.Schema.Inherited

/-!
Which of several classes a name finds. The search goes down from the root, the classes defined last
first and each with all that is below it before its elder siblings. A line is a way down from the
root to a class; of two lines the one ahead is that which turns to the younger class where they
part, or which ends where the other goes on. Main statement: a name finds the bearer that has the
foremost line. That is the bearer defined last if this one is based on the root itself; a class
further down stands back behind all that a younger sibling of a class above it leads to.
-/

namespace Relata

/-- The model is called by the name, as a class or as a table. -/
def Model.Bears (m : Model) (name : Value) : Prop :=
  name.same (.text m.name) = true ∨ name.same m.tableName = true

namespace Catalog

variable {c c' : Catalog} {m : Model} {base : Ancestor} {id : ModelId} {line : List ModelId}

/-- The class has the ancestor among its bases. -/
def Based (c : Catalog) (base : Ancestor) (id : ModelId) : Prop :=
  ∃ m, c.model? id = some m ∧ base ∈ m.bases

/-- A way down from an ancestor to a class, each class on it with the one before among its bases. -/
inductive Line (c : Catalog) : Ancestor → List ModelId → ModelId → Prop
  | last {base : Ancestor} {id : ModelId} : c.Based base id → Line c base [id] id
  | more {base : Ancestor} {next id : ModelId} {line : List ModelId} : c.Based base next →
    Line c (.model next) line id → Line c base (next :: line) id

/-- The line is met before the other one: it ends where the other goes on, or it turns to a younger
class where the two part. -/
def Ahead : List ModelId → List ModelId → Prop := List.Lex fun i j => j < i

theorem Ahead.asymm {a b : List ModelId} (h : Ahead a b) : ¬ Ahead b a :=
  have : Std.Asymm fun i j : ModelId => j < i := ⟨fun _ _ => Nat.lt_asymm⟩
  (List.Lex.asymm _).asymm _ _ h

theorem Line.end_unique {id' : ModelId} (h : c.Line base line id) (h' : c.Line base line id') :
    id = id' := by
  induction h with
  | last _ =>
    cases h' with
    | last _ => rfl
    | more _ none => cases none
  | more _ lower ih =>
    cases h' with
    | last _ => cases lower
    | more _ lower' => exact ih lower'

/-- Every base that is a class is defined before the class. -/
theorem Defined.based_lt (h : c.Defined) {i j : ModelId} (own : c.Based (.model j) i) : j < i := by
  obtain ⟨m, found, given⟩ := own
  induction h generalizing i m with
  | empty => cases found
  | @define c c' d h _ entered ih =>
    obtain ⟨last, rfl, completes⟩ := h.grounded.numbered.define_eq_ok entered
    rcases model?_push.mp found with old | ⟨rfl, rfl⟩
    · exact ih m old given
    · rcases completes.early _ given with absurd | absurd | ⟨k, lt, same⟩
      · cases absurd
      · cases absurd
      · cases same
        exact lt

/-- A line goes down to ever younger classes, so it is no longer than there are classes. -/
theorem Defined.line_le (h : c.Defined) (leads : c.Line base line id) :
    (∀ i ∈ line.head?, i ≤ id) ∧ line.length ≤ id + 1 ∧ id < c.models.size ∧
      ∀ i, base = .model i → i + line.length ≤ id := by
  induction leads with
  | last own =>
    refine ⟨by simp, by simp, ?_, ?_⟩
    · obtain ⟨m, found, -⟩ := own
      exact (Array.getElem?_eq_some_iff.mp found).1
    · rintro i rfl
      exact h.based_lt own
  | @more base next id line own _ ih =>
    obtain ⟨-, -, inside, long⟩ := ih
    have below : next + line.length ≤ id := long next rfl
    refine ⟨by simpa using Nat.le_of_add_right_le below, ?_, inside, ?_⟩
    · exact Nat.succ_le_succ ((Nat.le_add_left _ _).trans below)
    · rintro i rfl
      have younger : i + 1 ≤ next := h.based_lt own
      calc i + (line.length + 1) = i + 1 + line.length := (Nat.succ_add_eq_add_succ _ _).symm
        _ ≤ next + line.length := Nat.add_le_add_right younger _
        _ ≤ id := below

/-- The lines below an ancestor down to `depth` levels with the classes that they lead to, in the
order in which they are met. -/
def lines (c : Catalog) : Nat → Ancestor → List (List ModelId × ModelId)
  | 0, _ => []
  | depth + 1, base => (c.children base).flatMap fun id =>
      ([id], id) :: (c.lines depth (.model id)).map fun p => (id :: p.1, p.2)

/-- The search goes through the classes as the lines lead to them. -/
theorem below_eq_map_lines (depth : Nat) (base : Ancestor) :
    c.below depth base = (c.lines depth base).map Prod.snd := by
  induction depth generalizing base with
  | zero => rfl
  | succ depth ih => simp [below, lines, List.map_flatMap, ih, Function.comp_def]

theorem Numbered.mem_children_iff (h : c.Numbered) : id ∈ c.children base ↔ c.Based base id := by
  simp only [children, List.mem_map, List.mem_reverse, List.mem_filter, Array.mem_toList_iff,
    List.contains_iff_mem, Based]
  constructor
  · rintro ⟨m, ⟨there, own⟩, rfl⟩
    exact ⟨m, h.mem there, own⟩
  · rintro ⟨m, found, own⟩
    exact ⟨m, ⟨Array.mem_of_getElem? found, own⟩, h id m found⟩

theorem Numbered.mem_lines_iff (h : c.Numbered) {depth : Nat} :
    (line, id) ∈ c.lines depth base ↔ c.Line base line id ∧ line.length ≤ depth := by
  induction depth generalizing base line with
  | zero =>
    simp only [lines, List.not_mem_nil, false_iff]
    rintro ⟨leads, none⟩
    cases leads <;> simp at none
  | succ depth ih =>
    simp only [lines, List.mem_flatMap, h.mem_children_iff, List.mem_cons, List.mem_map,
      Prod.mk.injEq, Prod.exists]
    constructor
    · rintro ⟨next, own, ⟨rfl, rfl⟩ | ⟨rest, end_, lower, rfl, rfl⟩⟩
      · exact ⟨.last own, by simp⟩
      · obtain ⟨leads, short⟩ := ih.mp lower
        exact ⟨.more own leads, by simpa using short⟩
    · rintro ⟨leads, short⟩
      cases leads with
      | last own => exact ⟨_, own, .inl ⟨rfl, rfl⟩⟩
      | more own leads =>
        exact ⟨_, own, .inr ⟨_, _, ih.mpr ⟨leads, by simpa using short⟩, rfl, rfl⟩⟩

/-- The classes based on one are met the youngest first. -/
theorem Numbered.children_sorted (h : c.Numbered) (base : Ancestor) :
    (c.children base).Pairwise fun i j => j < i := by
  have sorted : c.models.toList.Pairwise fun a b => a.id < b.id := by
    rw [List.pairwise_iff_getElem]
    intro i j hi hj lt
    have number (k : Nat) (hk : k < c.models.toList.length) : c.models.toList[k].id = k :=
      h k _ (by simp [model?])
    rwa [number, number]
  unfold children
  rw [List.pairwise_map, List.pairwise_reverse]
  exact sorted.filter _

/-- Lines are met in their order. -/
theorem Numbered.lines_sorted (h : c.Numbered) (depth : Nat) (base : Ancestor) :
    (c.lines depth base).Pairwise fun p q => Ahead p.1 q.1 := by
  induction depth generalizing base with
  | zero => exact .nil
  | succ depth ih =>
    rw [lines, List.pairwise_flatMap]
    refine ⟨fun id _ => ?_, (h.children_sorted base).imp fun {i j} younger p hp q hq => ?_⟩
    · rw [List.pairwise_cons, List.pairwise_map]
      refine ⟨?_, (ih (.model id)).imp fun ahead => .cons ahead⟩
      rintro _ there
      obtain ⟨⟨line, end_⟩, lower, rfl⟩ := List.mem_map.mp there
      cases (h.mem_lines_iff.mp lower).1 <;> exact .cons .nil
    · have turn {k : ModelId} {p : List ModelId × ModelId}
          (there : p ∈ ([k], k) :: (c.lines depth (.model k)).map fun p => (k :: p.1, p.2)) :
          ∃ rest, p.1 = k :: rest := by
        rcases List.mem_cons.mp there with rfl | lower
        · exact ⟨[], rfl⟩
        · obtain ⟨q, -, rfl⟩ := List.mem_map.mp lower
          exact ⟨q.1, rfl⟩
      obtain ⟨rest, first⟩ := turn hp
      obtain ⟨rest', first'⟩ := turn hq
      rw [first, first']
      exact .rel younger

/-- What is dropped as a repetition is not what a search stops at. -/
theorem find?_eraseDups {α : Type} [BEq α] [LawfulBEq α] (p : α → Bool) (l : List α) :
    l.eraseDups.find? p = l.find? p := by
  induction hn : l.length using Nat.strongRecOn generalizing l with
  | _ n ih =>
    cases l with
    | nil => rfl
    | cons a rest =>
      have shorter : (rest.filter fun b => !b == a).length < n :=
        hn ▸ Nat.lt_succ_of_le (List.length_filter_le _ _)
      rw [List.eraseDups_cons, List.find?_cons, List.find?_cons, ih _ shorter _ rfl,
        List.find?_filter]
      cases own : p a with
      | true => rfl
      | false =>
        have same : (fun b => decide ((!b == a) = true ∧ p b = true)) = p := by
          funext b
          by_cases same : b = a
          · simp [same, own]
          · simp [same]
        simp only [same]

/-- In a list that is sorted the first hit is the one before all others. -/
theorem find?_eq_some_iff_of_sorted {α : Type} {r : α → α → Prop} {p : α → Bool} {l : List α}
    (sorted : l.Pairwise r) (asymm : ∀ a b, r a b → ¬ r b a) {a : α} :
    l.find? p = some a ↔ a ∈ l ∧ p a = true ∧ ∀ b ∈ l, p b = true → b = a ∨ r a b := by
  have least {a : α} (found : l.find? p = some a) : ∀ b ∈ l, p b = true → b = a ∨ r a b := by
    obtain ⟨-, before, after, rfl, none⟩ := List.find?_eq_some_iff_append.mp found
    intro b there hit
    rcases List.mem_append.mp there with earlier | later
    · exact absurd hit (by simpa using none b earlier)
    · rcases List.mem_cons.mp later with rfl | later
      · exact .inl rfl
      · exact .inr ((List.pairwise_cons.mp (List.pairwise_append.mp sorted).2.1).1 b later)
  constructor
  · exact fun found => ⟨List.mem_of_find?_eq_some found, List.find?_some found, least found⟩
  · rintro ⟨there, hit, first⟩
    obtain ⟨b, found⟩ := Option.isSome_iff_exists.mp (List.find?_isSome.mpr ⟨a, there, hit⟩)
    rcases first b (List.mem_of_find?_eq_some found) (List.find?_some found) with rfl | ahead
    · exact found
    · rcases least found a there hit with rfl | ahead'
      · exact found
      · exact absurd ahead (asymm _ _ ahead')

/-- The class by a number bears the name. -/
def bearsAt (c : Catalog) (name : Value) (id : ModelId) : Bool :=
  (c.model? id).any fun m => name.same (.text m.name) || name.same m.tableName

/-- A name is looked for along the lines. -/
theorem findByName?_eq (c : Catalog) (name : Value) :
    c.findByName? name =
      ((c.lines (c.models.size + 1) .root).find? fun p => c.bearsAt name p.2).bind
        fun p => c.model? p.2 := by
  rw [findByName?, lookupOrder, List.find?_filterMap, find?_eraseDups, below_eq_map_lines,
    List.find?_map]
  simp only [Function.comp_def]
  rw [Option.bind_map]
  rfl

theorem Numbered.bearsAt_iff (h : c.Numbered) {name : Value} :
    c.bearsAt name id = true ↔ ∃ m ∈ c.models, m.Bears name ∧ m.id = id := by
  simp only [bearsAt, Option.any_eq_true, Bool.or_eq_true]
  constructor
  · rintro ⟨m, found, bears⟩
    exact ⟨m, Array.mem_of_getElem? found, bears, h id m found⟩
  · rintro ⟨m, there, bears, rfl⟩
    exact ⟨m, h.mem there, bears⟩

/-- Every line leads to a class that the search reaches. -/
theorem Defined.mem_lines (h : c.Defined) (leads : c.Line base line id) :
    (line, id) ∈ c.lines (c.models.size + 1) base := by
  obtain ⟨-, short, inside, -⟩ := h.line_le leads
  exact h.grounded.numbered.mem_lines_iff.mpr ⟨leads, short.trans (Nat.succ_le_succ inside.le)⟩

theorem Defined.findByName?_eq_none_iff (h : c.Defined) {name : Value} :
    c.findByName? name = none ↔ ∀ m ∈ c.models, ¬ m.Bears name := by
  simp [findByName?, List.find?_eq_none, h.mem_lookupOrder, Model.Bears]

theorem Defined.findByName?_eq_some_iff (h : c.Defined) {name : Value} :
    c.findByName? name = some m ↔ m ∈ c.models ∧ m.Bears name ∧
      ∃ line, c.Line .root line m.id ∧ ∀ other ∈ c.models, other.Bears name →
        ∀ line', c.Line .root line' other.id → line' = line ∨ Ahead line line' := by
  have numbered := h.grounded.numbered
  rw [findByName?_eq, Option.bind_eq_some_iff]
  simp only [find?_eq_some_iff_of_sorted (numbered.lines_sorted _ _) fun _ _ => Ahead.asymm]
  constructor
  · rintro ⟨⟨line, id⟩, ⟨there, hit, first⟩, found⟩
    obtain ⟨m', there', bears, rfl⟩ := numbered.bearsAt_iff.mp hit
    obtain rfl : m' = m := Option.some.inj ((numbered.mem there').symm.trans found)
    refine ⟨there', bears, line, (numbered.mem_lines_iff.mp there).1, ?_⟩
    intro other own named line' leads
    rcases first _ (h.mem_lines leads) (numbered.bearsAt_iff.mpr ⟨other, own, named, rfl⟩) with
      same | ahead
    · exact .inl (congrArg Prod.fst same)
    · exact .inr ahead
  · rintro ⟨there, bears, line, leads, first⟩
    refine ⟨(line, m.id), ⟨h.mem_lines leads, numbered.bearsAt_iff.mpr ⟨m, there, bears, rfl⟩, ?_⟩,
      numbered.mem there⟩
    rintro ⟨line', id⟩ lower hit
    obtain ⟨other, own, named, rfl⟩ := numbered.bearsAt_iff.mp hit
    have leads' := (numbered.mem_lines_iff.mp lower).1
    rcases first other own named line' leads' with rfl | ahead
    · exact .inl (Prod.ext rfl (leads'.end_unique leads))
    · exact .inr ahead

/-- No line to a class that is not younger comes before that of a class based on the root. -/
theorem Defined.eq_or_ahead_single (h : c.Defined) {top : ModelId} (leads : c.Line .root line id)
    (elder : id ≤ top) : line = [top] ∨ Ahead [top] line := by
  cases leads with
  | last _ =>
    rcases Nat.lt_or_eq_of_le elder with lt | rfl
    · exact .inr (.rel lt)
    · exact .inl rfl
  | @more _ next _ rest own lower =>
    have long : next + rest.length ≤ id := (h.line_le lower).2.2.2 next rfl
    have some_ : 0 < rest.length := by cases lower <;> exact Nat.succ_pos _
    exact .inr (.rel (Nat.lt_of_lt_of_le (Nat.lt_add_of_pos_right some_) (long.trans elder)))

/-- A name finds nothing exactly if no class bears it, as its own name or as that of its table. Of
the classes that bear it, it finds the one to which the foremost line of all leads: at the first
class in which the line differs from one to another bearer it turns to the class defined later, or
it ends above it. So the bearer defined last is found if it is based on the root itself. -/
theorem Defined.name_finds_foremost (h : c.Defined) (name : Value) :
    (c.findByName? name = none ↔ ∀ m ∈ c.models, ¬ m.Bears name) ∧
    (∀ m, c.findByName? name = some m ↔ m ∈ c.models ∧ m.Bears name ∧
      ∃ line, c.Line .root line m.id ∧ ∀ other ∈ c.models, other.Bears name →
        ∀ line', c.Line .root line' other.id → line' = line ∨ Ahead line line') ∧
    ∀ m ∈ c.models, m.Bears name → .root ∈ m.bases →
      (∀ other ∈ c.models, other.Bears name → other.id ≤ m.id) → c.findByName? name = some m := by
  refine ⟨h.findByName?_eq_none_iff, fun _ => h.findByName?_eq_some_iff, ?_⟩
  intro m there bears based youngest
  exact h.findByName?_eq_some_iff.mpr ⟨there, bears, [m.id], .last ⟨m, h.grounded.mem there, based⟩,
    fun other own named line' leads => h.eq_or_ahead_single leads (youngest other own named)⟩

/-- A class of articles and one of posts, both based on the root, and below the articles another
class of posts. -/
def namesakes : List Definition :=
  [heir "Article" none [], heir "Post" none [],
    { heir "Post" (some ["Article"]) [] with key := "News" }]

def namesakesCatalog : Catalog := (namesakes.foldlM define empty).toOption.getD empty

/-- The class of posts below the articles is defined last, but the name finds the other one, for
posts are younger than articles. -/
theorem younger_sibling_takes_name : namesakesCatalog.Defined ∧
    ∃ m last line, namesakesCatalog.findByName? (.text "Post") = some m ∧
      last ∈ namesakesCatalog.models ∧ last.Bears (.text "Post") ∧ m.id < last.id ∧
      namesakesCatalog.Line .root line m.id ∧ namesakesCatalog.Line .root [0, 2] last.id ∧
      Ahead line [0, 2] := by
  have made : namesakes.foldlM define empty = .ok namesakesCatalog := rfl
  have defined : namesakesCatalog.Defined := Defined.empty.foldlM (by decide) made
  obtain ⟨article, first⟩ : ∃ m, namesakesCatalog.model? 0 = some m := ⟨_, rfl⟩
  obtain ⟨last, third⟩ : ∃ m, namesakesCatalog.model? 2 = some m := ⟨_, rfl⟩
  have there : last ∈ namesakesCatalog.models := Array.mem_of_getElem? third
  have id : last.id = 2 := defined.grounded.numbered 2 last third
  have name : last.name = "Post" := by
    have own : (namesakesCatalog.model? 2).map (·.name) = some "Post" := rfl
    simpa [third] using own
  have bears : last.Bears (.text "Post") := .inl (by rw [name]; decide)
  have found : (namesakesCatalog.findByName? (.text "Post")).map (·.id) = some 1 := by
    decide +kernel
  obtain ⟨m, finds, number⟩ := Option.map_eq_some_iff.mp found
  obtain ⟨-, -, line, leads, foremost⟩ :=
    ((defined.name_finds_foremost (.text "Post")).2.1 m).mp finds
  have leads' : namesakesCatalog.Line .root [0, 2] last.id := by
    have above : (namesakesCatalog.model? 0).map (·.bases) = some [.root] := rfl
    have below : (namesakesCatalog.model? 2).map (·.bases) = some [.model 0] := rfl
    simp only [first, third, Option.map_some, Option.some.injEq] at above below
    rw [id]
    exact .more ⟨article, first, by simp [above]⟩ (.last ⟨last, third, by simp [below]⟩)
  have elder : m.id < last.id := by
    rw [number, id]
    decide
  refine ⟨defined, m, last, line, finds, there, bears, elder, leads, leads', ?_⟩
  rcases foremost last there bears _ leads' with rfl | ahead
  · exact absurd (leads.end_unique leads') (Nat.ne_of_lt elder)
  · exact ahead

end Catalog

end Relata
