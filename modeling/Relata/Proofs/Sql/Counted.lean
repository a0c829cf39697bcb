import Relata.Proofs.Sql.Limited
import Relata.Proofs.Sql.Sifted

/-!
Statements that count. The number of rows of a select is asked for by the same table, joins and
conditions with another column, and without what is united with it. Main statement: where a statement
may be sent, so may the one that counts the rows of its first select. Besides, what a database finds for
a statement without limits: a select finds the rows that it keeps, one row for all of them together, or,
if it groups them, whatever it finds.
-/

namespace Relata

namespace Guard

theorem closes_from : closes 'F' = true := by decide +kernel

variable {keyword : String} (own : keyword ∈ forbidden)
include own

/-- A keyword that stands in a text behind a clean front stands there behind any other. -/
theorem Occurs.of_front {front front' rest tail : List Char} (clean : ¬ Occurs keyword.toList front)
    (ends : tail.head?.any Text.isWord = false)
    (occurs : Occurs keyword.toList (front ++ ' ' :: 'F' :: rest)) :
    Occurs keyword.toList (front' ++ ' ' :: 'F' :: rest ++ tail) := by
  obtain ⟨before, word, after, whole, spelled, free, closed⟩ := occurs
  rw [List.append_assoc] at whole
  obtain ⟨inside, rfl, split⟩ | ⟨crossing, rfl, split⟩ := List.append_eq_append_iff.mp whole
  · have begun : inside ≠ [] := by
      rintro rfl
      have some_ : word ≠ [] := by
        rintro rfl
        rw [List.forall₂_nil_right_iff] at spelled
        exact absurd spelled ((by decide : ∀ keyword ∈ forbidden, keyword.toList ≠ []) _ own)
      exact not_continues_of_closes closes_from own List.suffix_rfl some_ split spelled
    refine ⟨front' ++ inside, word, after ++ tail, ?_, spelled, ?_, ?_⟩
    · rw [split]
      simp
    · rwa [List.getLast?_append_of_ne_nil _ begun] at free ⊢
    · cases after with
      | nil => exact ends
      | cons c more => exact closed
  · obtain ⟨more, rfl, rfl⟩ | ⟨outside, rfl, goesOn⟩ := List.append_eq_append_iff.mp split
    · refine absurd ⟨before, word, more, by simp, spelled, free, ?_⟩ clean
      cases more with
      | nil => rfl
      | cons c more => exact closed
    · by_cases ended : outside = []
      · subst ended
        exact absurd ⟨before, crossing, [], by simp, by simpa using spelled, free, rfl⟩ clean
      · have left := List.forall₂_drop_append _ _ _ spelled
        exact absurd left (not_continues_of_closes closes_from own (List.drop_suffix _ _) ended goesOn)

omit own in
/-- A text that only reads still does with another front that reads, and without its end. -/
theorem ReadOnly.of_front {front front' rest tail : List Char}
    (h : ReadOnly (String.ofList (front' ++ ' ' :: 'F' :: rest ++ tail)))
    (reads : "SELECT".toList <+: front) (clean : reason? front = none)
    (ends : tail.head?.any Text.isWord = false) :
    ReadOnly (String.ofList (front ++ ' ' :: 'F' :: rest)) where
  reads := by
    have letters : (String.ofList (front ++ ' ' :: 'F' :: rest)).toList = front ++ ' ' :: 'F' :: rest :=
      String.toList_ofList
    have begins : "SELECT".toList <+: (String.ofList (front ++ ' ' :: 'F' :: rest)).toList := by
      rw [letters]
      exact List.IsPrefix.trans reads (List.prefix_append _ _)
    exact reads_of_prefix begins
  single := by
    have single := h.single
    have front_ := (reason?_eq_none_iff.mp clean).1
    simp only [String.toList_ofList, List.mem_append, not_or] at single ⊢
    exact ⟨front_, single.1.2⟩
  clean keyword own occurs := by
    have without := (reason?_eq_none_iff.mp clean).2 keyword own
    rw [String.toList_ofList] at occurs
    refine h.clean keyword own ?_
    rw [String.toList_ofList]
    exact occurs.of_front own without ends

end Guard

namespace Sql

/-- The column that a statement counts rows by. -/
def countColumn : String := "COUNT(*) AS aggregate"

namespace Select

/-- The select that counts the rows of another one. -/
def counted (s : Select) : Select :=
  { s with columns := [.text countColumn], bindings := [], orders := [], limit := .null, offset := .null }

/-- The beginning of a select, up to the columns. -/
def front (s : Select) (columns : String) : String :=
  "SELECT " ++ (if s.distinct then "DISTINCT " else "") ++ columns

/-- The select after its columns. -/
def behind (s : Select) (grouping : String) : String :=
  " FROM " ++ s.from_ ++ (Fragment.concat (s.joins.map fun j => .plain (" " ++ j.text))).text ++
    clauseText "WHERE" s.whereTokens ++ s.ending grouping ""

theorem text_bodyOf_front (s : Select) (columns grouping : String) :
    (s.bodyOf columns grouping).text = s.front columns ++ s.behind grouping := by
  rw [text_bodyOf, heading, front, behind]
  simp only [String.append_assoc]

/-- A text that does not begin with a letter of a word. -/
def Apart (text : String) : Prop := text.toList.head?.any Text.isWord = false

theorem Apart.append {a b : String} (ha : Apart a) (hb : Apart b) : Apart (a ++ b) := by
  unfold Apart at *
  rw [String.toList_append, List.head?_append]
  cases h : a.toList.head? with
  | none => exact hb
  | some c => rwa [h] at ha

theorem apart_bound {keyword : String} {count : Value} {text : String}
    (written : bound keyword count = .ok text) : Apart text := by
  unfold bound at written
  split at written
  · obtain rfl := Except.ok.inj written
    rfl
  · obtain ⟨n, -, written⟩ := ok_of_bind written
    split at written
    · obtain rfl := Except.ok.inj written
      simp [Apart]
      decide
    · cases written

theorem apart_tail {s : Select} {text : String} (written : s.tail = .ok text) : Apart text := by
  obtain ⟨limit, own, written⟩ := ok_of_bind written
  obtain ⟨offset, own', written⟩ := ok_of_bind written
  obtain rfl := Except.ok.inj written
  refine (Apart.append ?_ (apart_bound own)).append (apart_bound own')
  split
  · rfl
  · simp [Apart]
    decide

/-- What counts the rows reads the same tables under the same conditions. -/
theorem kept_counted (s : Select) (contents : Contents) : s.counted.kept contents = s.kept contents := rfl

end Select

namespace Statement

theorem apart_branches {branches : List Branch} {fs : List Fragment}
    (written : branches.mapM branchFragment = .ok fs) : Select.Apart (Fragment.concat fs).text := by
  cases branches with
  | nil =>
    cases written
    rfl
  | cons b rest =>
    rw [List.mapM_cons] at written
    obtain ⟨own, first, written⟩ := ok_of_bind written
    obtain ⟨others, -, written⟩ := ok_of_bind written
    obtain rfl := Except.ok.inj written
    unfold branchFragment at first
    cases body : b.select.body with
    | error e => simp [body, Except.map] at first
    | ok f =>
      rw [body] at first
      obtain rfl := Except.ok.inj first
      rw [Fragment.text_concat_cons, Fragment.text_append, String.append_assoc]
      unfold Select.Apart
      split <;> (simp; decide)

/-- The statement that counts the rows of the first select of another one. -/
def counted (s : Statement) : Statement := ⟨s.select.counted, []⟩

/-- If a statement may be sent, its rows may be counted. -/
theorem checked_counted {s : Statement} {context : String} {f : Fragment}
    (passed : s.checked context = .ok f) (context' : String) :
    ∃ g, s.counted.checked context' = .ok g := by
  obtain ⟨compiled, readOnly⟩ := checked_eq_ok_iff_readOnly.mp passed
  obtain ⟨body, own, compiled⟩ := ok_of_bind compiled
  obtain ⟨branches, others, compiled⟩ := ok_of_bind compiled
  obtain ⟨tail, last, compiled⟩ := ok_of_bind compiled
  obtain rfl := Except.ok.inj compiled
  obtain ⟨columns, -, own⟩ := ok_of_bind own
  obtain ⟨grouping, groups, own⟩ := ok_of_bind own
  obtain rfl := Except.ok.inj own
  let g := s.select.counted.bodyOf countColumn grouping ++ .concat [] ++ .plain ""
  have compiled' : s.counted.compile = .ok g := by
    have body : s.select.counted.body = .ok (s.select.counted.bodyOf countColumn grouping) := by
      have grouped : Select.listed s.select.counted.grouping = .ok grouping := groups
      rw [Select.body, grouped]
      rfl
    have tail : s.select.counted.tail = .ok "" := rfl
    have none_ : ([] : List Branch).mapM branchFragment = .ok [] := rfl
    simp only [compile, counted, body, tail, none_]
    rfl
  refine ⟨g, checked_eq_ok_iff_readOnly.mpr ⟨compiled', ?_⟩⟩
  have apart : Select.Apart ((Fragment.concat branches).text ++ tail) :=
    (apart_branches others).append (Select.apart_tail last)
  obtain ⟨rest, behind⟩ : ∃ rest, (s.select.behind grouping).toList = ' ' :: 'F' :: rest :=
    ⟨_, by simp [Select.behind]; rfl⟩
  have whole : (s.select.bodyOf columns grouping ++ .concat branches ++ .plain tail).text.toList =
      (s.select.front columns).toList ++ ' ' :: 'F' :: rest ++
        ((Fragment.concat branches).text ++ tail).toList := by
    simp only [Fragment.text_append, Select.text_bodyOf_front, Fragment.text_plain, String.toList_append,
      List.append_assoc, behind]
  have part : g.text.toList = (s.select.counted.front countColumn).toList ++ ' ' :: 'F' :: rest := by
    have same : s.select.counted.behind grouping = s.select.behind grouping := rfl
    simp only [g, Fragment.text_append, Select.text_bodyOf_front, Fragment.text_plain,
      Fragment.text_concat_nil, String.toList_append, same, behind]
    simp
  rw [← String.ofList_toList (s := g.text), part]
  rw [← String.ofList_toList (s := (_ ++ Fragment.plain tail).text), whole] at readOnly
  refine readOnly.of_front ?_ ?_ apart
  · simp [Select.front]
  · unfold Select.front Select.counted
    cases s.select.distinct <;> decide +kernel

end Statement

/-- What a database holds and finds: the rows of its tables with what is joined to them; the columns that
stand for all rows together, as the number of rows does; and what it answers to a select by itself, without
ordering and limits. Only a select that groups its rows may leave out what it keeps. -/
structure Database where
  contents : Contents
  folds : Value → Bool
  rows : Select → List Row
  rows_nil_iff : ∀ s : Select, s.grouping = [] → s.having = [] →
    (rows s = [] ↔ s.columns.any folds = false ∧ s.kept contents = [])
  counts : ∀ s : Select, s.grouping = [] → s.having = [] → s.columns = [.text countColumn] →
    rows s = [[("aggregate", .int (s.kept contents).length)]]

/-- An answer to a statement: without limits it has the rows of its select in some order, or those of all
its selects, each once at least. -/
structure Database.Answers (db : Database) (s : Statement) (answer : List Row) : Prop where
  alone : s.select.limit = .null → s.select.offset = .null → s.branches = [] →
    answer.Perm (db.rows s.select)
  united : s.select.limit = .null → s.select.offset = .null →
    (answer = [] ↔ ∀ select ∈ s.selects, db.rows select = [])

namespace Database

variable {db : Database} {s : Statement} {answer : List Row}

/-- The number of rows is one row. -/
theorem answers_counted_iff (whole : s.select.grouping = []) (all : s.select.having = []) :
    db.Answers s.counted answer ↔
      answer = [[("aggregate", .int (s.select.kept db.contents).length)]] := by
  have rows : db.rows s.select.counted = [[("aggregate", .int (s.select.kept db.contents).length)]] := by
    rw [← Select.kept_counted]
    exact db.counts s.select.counted whole all rfl
  constructor
  · intro h
    have own : answer.Perm (db.rows s.select.counted) := h.alone rfl rfl rfl
    exact List.perm_singleton.mp (rows ▸ own)
  · rintro rfl
    refine ⟨fun _ _ _ => rows ▸ .refl _, fun _ _ => ⟨fun absurd => (by cases absurd), fun none_ => ?_⟩⟩
    have own := none_ s.select.counted (.head _)
    rwa [rows] at own

/-- What a statement finds whose first select does not group its rows. -/
theorem Answers.ne_nil_iff (h : db.Answers s answer) (free : s.select.limit = .null)
    (free' : s.select.offset = .null) (whole : s.select.grouping = []) (all : s.select.having = []) :
    answer ≠ [] ↔ s.select.kept db.contents ≠ [] ∨ s.select.columns.any db.folds = true ∨
      ∃ b ∈ s.branches, db.rows b.select ≠ [] := by
  have own := db.rows_nil_iff s.select whole all
  rw [Ne, h.united free free', Statement.selects, List.forall_mem_cons, own]
  simp only [List.forall_mem_map, not_and_or, not_forall, exists_prop, Bool.not_eq_false]
  tauto

/-- Whether a column stands for all rows together: the number of rows does, and what else is known to. -/
def foldsColumn (known : String → Bool) (column : Value) : Bool :=
  column.asText?.any fun text => text == countColumn || known text

/-- A database that shows each row by itself, or one row for all of them. -/
def showing (contents : Contents) (known : String → Bool) (shown : Candidate → Row) : Database where
  contents := contents
  folds := foldsColumn known
  rows s :=
    if s.columns.map Value.asText? = [some countColumn] then
      [[("aggregate", .int (s.kept contents).length)]]
    else if s.columns.any (foldsColumn known) then [[]]
    else (s.kept contents).map shown
  rows_nil_iff s _ _ := by
    split
    · next alone =>
      obtain ⟨column, columns, text⟩ := List.map_eq_singleton_iff.mp alone
      have counts : s.columns.any (foldsColumn known) = true := by simp [columns, foldsColumn, text]
      simp [counts]
    · split
      · next some_ => simp [some_]
      · next none_ => simp [none_]
  counts s _ _ columns := by simp [columns, Value.asText?]

end Database

end Sql

end Relata
