import Relata.Loading.Run
import Relata.Proofs.Loading.Fetched
import Relata.Proofs.Process.Proceeds
import Relata.Proofs.Query.Built
import Relata.Proofs.Sql.Limited

/-!
The pages of a long result. A query is read a page at a time, each by a statement of its own with LIMIT
and OFFSET, and a callback is given the pages one after the other; it may be any action, and wait for
whatever it likes. Main statement: if the statements for the pages are answered with the rows that belong
there, then the callback is given each page that is not empty, in order and until it says False, and the
reading ends; if it never says so, the pages hold every row once.
-/

namespace Relata

open Sql (Fragment)
open World (Grows)

namespace Deed

variable {τ α : Type} {rely R : World τ → World τ → Prop} {x : Deed τ α}

/-- What is made of the pieces of loading hands its outcome on, over changes that `R` allows. -/
theorem Made.proceeds (h : Made R x) (refl : ∀ w, R w w) (trans : ∀ {a b c}, R a b → R b c → R a c)
    (quiet : ∀ {w w'}, rely w w' → R w w') {next : Except Error α → Process (World τ)}
    {w t : World τ} {sent : Dialogue} {o : Except Error Value}
    (run : Process.Proceeds rely (x next) w sent (.done o) t) :
    ∃ first later r u, sent = first ++ later ∧ x.Proceeds rely w first r u ∧ R w u ∧
      Process.Proceeds rely (next r) u later (.done o) t := by
  induction h generalizing w sent with
  | ofExcept r => exact ⟨[], sent, r, w, rfl, .ofExcept r w, refl w, run⟩
  | bind _ _ ihx ihf =>
    obtain ⟨first, later, r, u, rfl, own, changed, rest⟩ := ihx run
    cases r with
    | error e => exact ⟨first, later, _, u, rfl, own.bind_error _, changed, rest⟩
    | ok a =>
      obtain ⟨second, last, r, v, rfl, own', changed', rest⟩ := ihf a rest
      exact ⟨first ++ second, last, r, v, (List.append_assoc ..).symm, own.bind own',
        trans changed changed', rest⟩
  | attempt _ ih =>
    obtain ⟨first, later, r, u, same, own, changed, rest⟩ := ih run
    exact ⟨first, later, _, u, same, own.attempt, changed, rest⟩
  | getsExcept f =>
    cases run with
    | get run => exact ⟨[], sent, _, w, rfl, fun _ => .get (.rest _ _), refl w, run⟩
  | modifyGet f change =>
    cases run with
    | get run => cases run with
      | set run => exact ⟨[], sent, _, _, rfl, fun _ => .get (.set (.rest _ _)), change w, run⟩
  | ask r _ =>
    cases run with
    | @ask _ _ _ _ _ rows _ _ others run =>
      exact ⟨[(r, rows)], _, rows, _, rfl, fun _ => .ask others (.rest _ _), quiet others, run⟩

end Deed

namespace Query

variable {τ : Type} {rely : World τ → World τ → Prop} {q : Query} {w t : World τ} {made : Row → Entity}
  {rows : List Row}

/-- Making the objects of some rows waits for nothing. -/
theorem runs_hydrates (hydrated : ∀ row ∈ rows, q.entity w.toLookup row = .ok (made row)) :
    ∃ members w',
      Act.Runs Eq (rows.mapM (q.object .null)) w [] (.ok (members.map fun o => (.null, o))) w' ∧
      w.Grows w' ∧ List.Forall₂ (fun row o => w'.Holds o (made row)) rows members := by
  induction rows generalizing w with
  | nil => exact ⟨[], w, .ofExcept (.ok []) w, .refl w, .nil⟩
  | cons row rest ih =>
    obtain ⟨own, others⟩ := List.forall_mem_cons.mp hydrated
    have grows : w.Grows (w.extended (made row)) := .of_push w (made row)
    obtain ⟨members, w', runs, grows', holds⟩ := ih (w := w.extended (made row)) fun r there =>
      grows.lookup ▸ others r there
    refine ⟨w.objects.size :: members, w', ?_, grows.trans grows', .cons ?_ holds⟩
    · have first : Act.Runs Eq (q.hydrate row) w [] (.ok w.objects.size) (w.extended (made row)) :=
        (Act.Runs.getsExcept_ok (f := fun s : World τ => q.entity s.toLookup row) own).bind (.modifyGet _ w)
      rw [List.mapM_cons]
      have key : Act.Runs Eq (q.object .null row) w [] (.ok (.null, w.objects.size))
          (w.extended (made row)) :=
        (Act.Runs.ofExcept (.ok (Value.null, row)) w).bind (first.bind (.ofExcept (.ok _) _))
      exact key.bind (runs.bind (.ofExcept (.ok _) _))
    · exact (World.holds_of_object? (w.object?_extended_self (made row))).later grows'

/-- A page is there: an object for each row, all of them in one collection. -/
structure Fetched.Holds (page : Fetched) (w : World τ) (made : Row → Entity) (rows : List Row) : Prop where
  members : w.collections[page.collection]? = some page.members
  objects : List.Forall₂ (fun row o => w.Holds o (made row)) rows page.members

/-- The relations that a query asks for cannot be loaded on the objects of some rows. -/
def Unloaded (rely : World τ → World τ → Prop) (q : Query) (made : Row → Entity) (rows : List Row)
    (nested : Dialogue) (e : Error) : Prop :=
  q.loads.paths ≠ [] ∧ rows ≠ [] ∧ ∃ members w w',
    List.Forall₂ (fun row o => w.Holds o (made row)) rows members ∧
    (Loader.load (.ofRequest q.loads .null false) (members.map .object) q.loads.paths).Proceeds rely w
      nested (.error e) w'

/-- What becomes of a query whose statement is answered: there is an object for each row, unless the
relations that it asks for cannot be loaded. -/
theorem of_proceeds_get (quiet : ∀ {w w' : World τ}, rely w w' → w.Grows w') {f : Fragment} {c : Nat}
    (passed : q.statement.checked "get" = .ok f) (runner : w.runner q.select.source.connection = .ok c)
    (hydrated : ∀ row ∈ rows, q.entity w.toLookup row = .ok (made row))
    {next : Except Error Fetched → Process (World τ)} {sent : Dialogue} {o : Except Error Value}
    (run : Process.Proceeds rely (q.get .null next) w sent (.done o) t)
    (answered : ∀ r, (⟨c, f.text, f.values⟩, r) ∈ sent → r = .ok rows) :
    ∃ nested later w', sent = (⟨c, f.text, f.values⟩, .ok rows) :: (nested ++ later) ∧ w.Grows w' ∧
      (q.loads.paths = [] ∨ rows = [] → nested = []) ∧
      ((∃ e, q.Unloaded rely made rows nested e ∧
          Process.Proceeds rely (next (.error e)) w' later (.done o) t) ∨
        ∃ page : Fetched, page.Holds w' made rows ∧
          Process.Proceeds rely (next (.ok page)) w' later (.done o) t) := by
  rw [get, fetch, passed] at run
  cases run with
  | get run =>
    simp only [runner] at run
    cases run with
    | @ask _ _ _ w₁ _ r later _ others run =>
      obtain rfl := answered r (.head _)
      have hydrated₁ : ∀ row ∈ rows, q.entity w₁.toLookup row = .ok (made row) := fun row there =>
        (quiet others).lookup ▸ hydrated row there
      obtain ⟨members, w₂, runs, grows, holds⟩ := runs_hydrates hydrated₁
      have run := Process.Proceeds.past (runs _) run
      have bare : (members.map fun o => (Value.null, o)).map (·.2) = members := by simp
      simp only [bare] at run
      -- The same ending, whether or not relations of the new objects are loaded before it.
      have finish {w₃ : World τ} {last : Dialogue} {keys : List Value} (grows₃ : w₂.Grows w₃)
          (run : Process.Proceeds rely ((Deed.adopt members >>= fun collection =>
            pure (⟨collection, members, keys⟩ : Fetched)) next) w₃ last (.done o) t) :
          w.Grows (w₃.adopted members) ∧ ∃ page : Fetched, page.Holds (w₃.adopted members) made rows ∧
            Process.Proceeds rely (next (.ok page)) (w₃.adopted members) last (.done o) t := by
        have adopts : Act.Runs Eq (Deed.adopt members) w₃ [] (.ok w₃.collections.size)
            (w₃.adopted members) := .modifyGet _ w₃
        have later := (w₃.adds_adopted members).grows
        refine ⟨(((quiet others).trans grows).trans grows₃).trans later, _, ⟨?_, ?_⟩,
          run.past (adopts.bind (.ofExcept (.ok _) _) _)⟩
        · simp [World.adopted]
        · exact holds.imp fun _ _ own => own.later (grows₃.trans later)
      split at run
      · next more =>
        simp only [Bool.and_eq_true, Bool.not_eq_true', List.isEmpty_eq_false_iff] at more
        obtain ⟨asked, some_⟩ := more
        have loads : ¬ (q.loads.paths = [] ∨ rows = []) := by
          rintro (flat | rfl)
          · exact asked flat
          · cases holds
            exact some_ rfl
        obtain ⟨nested, last, r, w₃, rfl, own, grows₃, run⟩ := (Loader.made_load _ _ _).proceeds
          World.Grows.refl World.Grows.trans quiet run
        cases r with
        | error e =>
          exact ⟨nested, last, w₃, rfl, ((quiet others).trans grows).trans grows₃, fun flat => absurd flat loads,
            .inl ⟨e, ⟨asked, fun none_ => loads (.inr none_), members, w₂, w₃, holds, own⟩, run⟩⟩
        | ok _ =>
          obtain ⟨grows', there⟩ := finish grows₃ run
          exact ⟨nested, last, _, rfl, grows', fun flat => absurd flat loads, .inr there⟩
      · obtain ⟨grows', there⟩ := finish (.refl w₂) run
        exact ⟨[], later, _, rfl, grows', fun _ => rfl, .inr there⟩

end Query

/-- A query that is read in pages: over which connection and by which statement, without the limits; how
many objects a page may have; the rows that the query matches and what becomes of them; and the callback
that the pages are handed to. Others, beside whom all this happens, do what they may. -/
structure Feed (τ : Type) where
  query : Query
  connection : Nat
  statement : Fragment
  size : Nat
  rows : List Row
  made : Row → Entity
  callback : Value → Deed τ Value
  rely : World τ → World τ → Prop

namespace Feed

variable {τ : Type} (feed : Feed τ)

/-- The rows of one page. -/
def slice (number : Nat) : List Row := (feed.rows.drop (number * feed.size)).take feed.size

theorem length_slice_le (number : Nat) : (feed.slice number).length ≤ feed.size :=
  List.length_take_le _ _

/-- There are rows enough for the pages before and a full one. -/
theorem le_of_full (pos : 0 < feed.size) {number : Nat}
    (full : (feed.slice number).length = feed.size) :
    (number + 1) * feed.size ≤ feed.rows.length := by
  rw [slice, List.length_take, List.length_drop] at full
  rw [Nat.succ_mul]
  omega

/-- A page that is not full is the last one. -/
theorem lt_of_lacking {number : Nat} (lacking : (feed.slice number).length < feed.size) :
    feed.rows.length < (number + 1) * feed.size := by
  rw [slice, List.length_take, List.length_drop] at lacking
  rw [Nat.succ_mul]
  omega

/-- The first pages together. -/
theorem flatMap_slice (count : Nat) :
    (List.range count).flatMap feed.slice = feed.rows.take (count * feed.size) := by
  induction count with
  | zero => simp
  | succ count ih =>
    rw [List.range_succ, List.flatMap_append, ih, List.flatMap_singleton, slice, ← List.take_add,
      Nat.succ_mul]

/-- The statement for one page. -/
def request (number : Nat) : Request :=
  ⟨feed.connection, feed.statement.text ++ Guard.limits feed.size (number * feed.size),
    feed.statement.values⟩

/-- Whether more pages are wanted. Of all values False alone says no. -/
def wants : Value → Bool
  | .bool false => false
  | _ => true

theorem eq_of_wants {v : Value} (h : wants v = false) : v = .bool false := by
  unfold wants at h
  split at h
  · rfl
  · cases h

/-- The callback, as far as its answer matters. -/
def heeded (page : Value) : Deed τ Bool := do return wants (← feed.callback page)

/-- Reads the pages from one on, at most so many. -/
def read (limit number : Nat) : Deed τ Unit :=
  feed.query.pagesFrom (.int feed.size) feed.heeded limit number

/-- A world in which the connection is there and the rows become what they are to become. -/
structure Serves (w : World τ) : Prop where
  runner : w.runner feed.query.select.source.connection = .ok feed.connection
  hydrated : ∀ row ∈ feed.rows, feed.query.entity w.toLookup row = .ok (feed.made row)

/-- The query may be sent and sets no limits of its own, a page has room for an object, and the numbers in
the statements can be written. The others only add to the world, and the callback, an action like any
other, leaves a world in which the query can be read on. -/
structure Sound : Prop where
  passed : feed.query.statement.checked "get" = .ok feed.statement
  unlimited : feed.query.select.limit = .null ∧ feed.query.select.offset = .null
  pos : 0 < feed.size
  short : (Nat.toDigits 10 feed.size).length ≤ Numeral.digitLimit ∧
    (Nat.toDigits 10 feed.rows.length).length ≤ Numeral.digitLimit
  idle : ∀ w, feed.rely w w
  quiet : ∀ {w w' : World τ}, feed.rely w w' → w.Grows w'
  handsOn : ∀ page, (feed.callback page).HandsOn feed.rely
  keeps : ∀ {page w sent r t}, feed.Serves w → (feed.callback page).Proceeds feed.rely w sent r t →
    feed.Serves t

/-- The statements for the pages are answered with their rows. -/
def Answered (sent : Dialogue) : Prop :=
  ∀ number ≤ feed.rows.length / feed.size, ∀ r, (feed.request number, r) ∈ sent →
    r = .ok (feed.slice number)

variable {feed}

theorem Serves.later {w w' : World τ} (h : feed.Serves w) (grows : w.Grows w') : feed.Serves w' :=
  ⟨World.runner_later grows h.runner, grows.lookup ▸ h.hydrated⟩

/-- A page that the callback was given: its number and the collection; what was sent for the relations of
its objects; what the callback sent and what it came to; and the worlds before and after. -/
structure Handed (τ : Type) where
  number : Nat
  collection : CollectionId
  nested : Dialogue
  said : Dialogue
  answer : Except Error Value
  before : World τ
  after : World τ

namespace Handed

/-- The collection holds an object for each row of the page, and the callback has been called with it. -/
structure Of (feed : Feed τ) (page : Handed τ) : Prop where
  some_ : feed.slice page.number ≠ []
  objects : ∃ members, page.before.collections[page.collection]? = some members ∧
    List.Forall₂ (fun row o => page.before.Holds o (feed.made row)) (feed.slice page.number) members
  called : (feed.callback (.collection page.collection)).Proceeds feed.rely page.before page.said
    page.answer page.after

/-- The callback has come to an answer, and not to False. -/
def GoesOn (page : Handed τ) : Prop := ∃ v, page.answer = .ok v ∧ wants v = true

/-- What is sent for a page and while the callback has it. -/
def sent (feed : Feed τ) (page : Handed τ) : Dialogue :=
  (feed.request page.number, .ok (feed.slice page.number)) :: (page.nested ++ page.said)

end Handed

/-- How reading ends after some pages: the callback has said that no more are wanted, or failed; the
relations of the next page cannot be loaded; or the rows are all there, which the last page has shown by
not being full or the next one by being empty. -/
inductive Ending (feed : Feed τ) (pages : List (Handed τ)) (next : Nat) :
    Dialogue → Except Error Unit → Prop
  | stopped {page : Handed τ} : pages.getLast? = some page → page.answer = .ok (.bool false) →
    Ending feed pages next [] (.ok ())
  | raised {page : Handed τ} {e : Error} : pages.getLast? = some page → page.answer = .error e →
    Ending feed pages next [] (.error e)
  | unloaded {nested : Dialogue} {e : Error} : (∀ page ∈ pages, page.GoesOn) →
    feed.query.Unloaded feed.rely feed.made (feed.slice next) nested e →
      Ending feed pages next ((feed.request next, .ok (feed.slice next)) :: nested) (.error e)
  | covered {rest : Dialogue} : (∀ page ∈ pages, page.GoesOn) →
    (List.range next).flatMap feed.slice = feed.rows →
    (rest = [] ∨ rest = [(feed.request next, .ok [])]) →
    next + rest.length = feed.rows.length / feed.size + 1 → Ending feed pages next rest (.ok ())

/-- What reading the pages from `number` on comes to. -/
structure Reads (feed : Feed τ) (number : Nat) (pages : List (Handed τ)) (sent : Dialogue)
    (r : Except Error Unit) : Prop where
  numbers : pages.map (·.number) = List.range' number pages.length
  handed : ∀ page ∈ pages, page.Of feed
  goesOn : ∀ page ∈ pages.dropLast, page.GoesOn
  ending : ∃ rest, sent = pages.flatMap (·.sent feed) ++ rest ∧
    feed.Ending pages (number + pages.length) rest r

theorem Ending.cons {pages : List (Handed τ)} {next : Nat} {rest : Dialogue} {r : Except Error Unit}
    (h : feed.Ending pages next rest r) {page : Handed τ} (own : page.GoesOn) :
    feed.Ending (page :: pages) next rest r := by
  have more (others : ∀ page ∈ pages, page.GoesOn) : ∀ p ∈ page :: pages, p.GoesOn :=
    List.forall_mem_cons.mpr ⟨own, others⟩
  cases h with
  | stopped last said => exact .stopped (by rw [List.getLast?_cons, last]; rfl) said
  | raised last said => exact .raised (by rw [List.getLast?_cons, last]; rfl) said
  | unloaded others fails => exact .unloaded (more others) fails
  | covered others whole rest count => exact .covered (more others) whole rest count

namespace Reads

variable {number : Nat} {page : Handed τ} {r : Except Error Unit}

/-- No page is handed over, and the reading ends. -/
theorem none_ {rest : Dialogue} (ending : feed.Ending [] number rest r) : feed.Reads number [] rest r :=
  ⟨rfl, by simp, by simp, rest, rfl, ending⟩

/-- One page is handed over, and the reading ends. -/
theorem one (own : page.Of feed) (ending : feed.Ending [page] (page.number + 1) [] r) :
    feed.Reads page.number [page] (page.sent feed) r :=
  ⟨rfl, by simpa using own, by simp, [], by simp, ending⟩

theorem cons (own : page.Of feed) (goesOn : page.GoesOn) {pages : List (Handed τ)} {later : Dialogue}
    (h : feed.Reads (page.number + 1) pages later r) :
    feed.Reads page.number (page :: pages) (page.sent feed ++ later) r := by
  obtain ⟨numbers, handed, others, rest, rfl, ending⟩ := h
  refine ⟨?_, List.forall_mem_cons.mpr ⟨own, handed⟩, ?_, rest, by simp, ?_⟩
  · rw [List.map_cons, numbers, List.length_cons, List.range'_succ]
  · cases pages with
    | nil => simp
    | cons p pages => exact List.forall_mem_cons.mpr ⟨goesOn, others⟩
  · rw [List.length_cons, Nat.add_comm pages.length, ← Nat.add_assoc]
    exact ending.cons goesOn

end Reads

/-- All rows are on the pages before the next one. -/
theorem flatMap_slice_of_le {next : Nat} (whole : feed.rows.length ≤ next * feed.size) :
    (List.range next).flatMap feed.slice = feed.rows := by
  rw [feed.flatMap_slice, List.take_of_length_le whole]

/-- There is nothing on a page: the one before, if any, was full. -/
theorem Ending.of_empty (pos : 0 < feed.size) {number : Nat}
    (within : number * feed.size ≤ feed.rows.length) (empty : feed.slice number = []) :
    feed.Ending [] number [(feed.request number, .ok [])] (.ok ()) := by
  have lacking : feed.rows.length < (number + 1) * feed.size :=
    feed.lt_of_lacking (by simpa [empty] using pos)
  have whole : feed.rows.length ≤ number * feed.size := by
    have length := congrArg List.length empty
    rw [slice, List.length_take, List.length_drop, List.length_nil] at length
    omega
  have pages : feed.rows.length / feed.size = number :=
    Nat.div_eq_of_lt_le within lacking
  exact .covered (by simp) (flatMap_slice_of_le whole) (.inr rfl) (by simp [pages])

/-- A page is not full. -/
theorem Ending.of_lacking {page : Handed τ} (own : page.Of feed)
    (goesOn : page.GoesOn) (lacking : (feed.slice page.number).length < feed.size) :
    feed.Ending [page] (page.number + 1) [] (.ok ()) := by
  have less := feed.lt_of_lacking lacking
  have within : page.number * feed.size ≤ feed.rows.length := by
    have length := List.length_pos_iff.mpr own.some_
    rw [slice, List.length_take, List.length_drop] at length
    omega
  have pages : feed.rows.length / feed.size = page.number := Nat.div_eq_of_lt_le within less
  exact .covered (by simpa using goesOn) (flatMap_slice_of_le less.le) (.inl rfl) (by simp [pages])

/-- The query for one page. -/
theorem Sound.checked_page (h : feed.Sound) {number : Nat}
    (within : number * feed.size ≤ feed.rows.length) :
    (feed.query.mapSelect (·.limited feed.size (number * feed.size))).statement.checked "get" =
      .ok ⟨(feed.request number).sql, (feed.request number).params⟩ := by
  have fewer : (Nat.toDigits 10 (number * feed.size)).length ≤ Numeral.digitLimit := by
    have whole := h.short.2
    rw [Nat.length_toDigits_le_iff (by decide) (by decide)] at whole ⊢
    exact within.trans_lt whole
  exact Sql.Statement.checked_limited h.passed h.unlimited.1 h.unlimited.2 h.short.1 fewer

/-- One turn: the reading ends, or a full page is handed over and the next one is read. -/
theorem Sound.turn (h : feed.Sound) {limit number : Nat} (within : number * feed.size ≤ feed.rows.length)
    {w t : World τ} (serves : feed.Serves w) {next : Except Error Unit → Process (World τ)}
    {sent : Dialogue} {o : Except Error Value}
    (run : Process.Proceeds feed.rely (feed.read (limit + 1) number next) w sent (.done o) t)
    (answered : feed.Answered sent) :
    (∃ pages first later r u, sent = first ++ later ∧ feed.Reads number pages first r ∧
      Process.Proceeds feed.rely (next r) u later (.done o) t) ∨
    ∃ (page : Handed τ) (later : Dialogue), page.number = number ∧ page.Of feed ∧ page.GoesOn ∧
      (number + 1) * feed.size ≤ feed.rows.length ∧ sent = page.sent feed ++ later ∧
      feed.Serves page.after ∧
      Process.Proceeds feed.rely (feed.read limit (number + 1) next) page.after later (.done o) t := by
  have before : (Value.int number).times (.int feed.size) = .ok (.int (number * feed.size : Nat)) := by
    simp [Value.times]
  rw [read, Query.pagesFrom, before] at run
  have hydrated : ∀ row ∈ feed.slice number, (feed.query.mapSelect (·.limited feed.size
      (number * feed.size))).entity w.toLookup row = .ok (feed.made row) := fun row there =>
    serves.hydrated row (List.mem_of_mem_drop (List.mem_of_mem_take there))
  obtain ⟨nested, later, w₁, rfl, grows, flat, outcome⟩ := Query.of_proceeds_get h.quiet
    (h.checked_page within) serves.runner hydrated run
    (answered number ((Nat.le_div_iff_mul_le h.pos).mpr within))
  obtain ⟨e, unloaded, run⟩ | ⟨fetched, holds, run⟩ := outcome
  · exact .inl ⟨[], _, later, .error e, w₁, rfl, .none_ (.unloaded (by simp) unloaded), run⟩
  dsimp only at run
  have length : fetched.members.length = (feed.slice number).length := holds.objects.length_eq.symm
  split at run
  · next empty =>
    have none_ : feed.slice number = [] := by
      rw [← List.length_eq_zero_iff, ← length, List.isEmpty_iff.mp empty, List.length_nil]
    rw [flat (.inr none_), none_]
    exact .inl ⟨[], _, later, .ok (), w₁, rfl, .none_ (.of_empty h.pos within none_), run⟩
  next some_ =>
  obtain ⟨said, later, answer, w₂, rfl, called, run⟩ := (h.handsOn _).through run
  let page : Handed τ := ⟨number, fetched.collection, nested, said, answer, w₁, w₂⟩
  have own : page.Of feed := by
    refine ⟨?_, ⟨_, holds.members, holds.objects⟩, called⟩
    rw [Ne, ← List.length_eq_zero_iff, ← length, List.length_eq_zero_iff]
    simpa using some_
  have parts : (feed.request number, .ok (feed.slice number)) :: (nested ++ (said ++ later)) =
      page.sent feed ++ later := by simp [Handed.sent, page]
  cases answer with
  | error e => exact .inl ⟨_, _, later, .error e, w₂, parts, .one own (.raised rfl rfl), run⟩
  | ok v =>
    dsimp only [pure] at run
    cases wanted : wants v with
    | false =>
      rw [wanted] at run
      obtain rfl := eq_of_wants wanted
      exact .inl ⟨_, _, later, .ok (), w₂, parts, .one own (.stopped rfl rfl), run⟩
    | true =>
      have goesOn : page.GoesOn := ⟨v, rfl, wanted⟩
      have above : (Value.int feed.size).isAbove? fetched.members.length =
          some (decide ((feed.slice number).length < feed.size)) := by
        simp [Value.isAbove?, length]
      rw [wanted, above] at run
      by_cases lacking : (feed.slice number).length < feed.size
      · rw [decide_eq_true lacking] at run
        exact .inl ⟨_, _, later, .ok (), w₂, parts, .one own (.of_lacking own goesOn lacking), run⟩
      · have full := le_antisymm (feed.length_slice_le number) (not_lt.mp lacking)
        rw [decide_eq_false lacking] at run
        exact .inr ⟨page, later, rfl, own, goesOn, feed.le_of_full h.pos full, parts,
          h.keeps (serves.later grows) called, run⟩

/-- Turn after turn: by induction on the number of pages that may be read. -/
theorem Sound.reads (h : feed.Sound) {limit number : Nat}
    (enough : feed.rows.length / feed.size < limit + number)
    (within : number * feed.size ≤ feed.rows.length) {w t : World τ} (serves : feed.Serves w)
    {next : Except Error Unit → Process (World τ)} {sent : Dialogue} {o : Except Error Value}
    (run : Process.Proceeds feed.rely (feed.read limit number next) w sent (.done o) t)
    (answered : feed.Answered sent) :
    ∃ pages first later r u, sent = first ++ later ∧ feed.Reads number pages first r ∧
      Process.Proceeds feed.rely (next r) u later (.done o) t := by
  induction limit generalizing number w sent with
  | zero =>
    have reached := (Nat.le_div_iff_mul_le h.pos).mpr within
    omega
  | succ limit ih =>
    obtain ended | ⟨page, later, rfl, own, goesOn, further, rfl, serves', run⟩ :=
      h.turn within serves run answered
    · exact ended
    · obtain ⟨pages, first, last, r, u, rfl, others, run⟩ := ih (by omega) further serves' run
        fun n among r there => answered n among r (List.mem_append_right _ there)
      exact ⟨_, _, last, r, u, (List.append_assoc ..).symm, .cons own goesOn others, run⟩

end Feed

end Relata
