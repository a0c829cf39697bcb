import Relata.Proofs.Loading.Made
import Relata.Proofs.Query.Built
import Relata.Proofs.Sql.Guarded

/-!
Retrieving only reads. A program that reaches a runner by the ways of retrieving alone hands over
nothing but statements that the guard let through, as they were written, along every run: whatever
the queries hold, whatever the runner answers, and however tasks take turns. A step whose statement
does not only read is a violation before anything is handed over.
-/

namespace Relata

open Sql (Statement Fragment)

namespace Deed

variable {τ : Type} {α β : Type}

/-- A program whose only ways to a runner are those of retrieving. What else it does, to the world
and to its tasks, is its own affair; so is what it hands to `chunk` and `each`, if that is such a
program too. -/
inductive Retrieval : {α : Type} → Deed τ α → Prop
  | ofExcept {α : Type} (r : Except Error α) : Retrieval (Act.ofExcept r)
  | bind {α β : Type} {x : Deed τ α} {f : α → Deed τ β} :
    Retrieval x → (∀ a, Retrieval (f a)) → Retrieval (x >>= f)
  | attempt {α : Type} {x : Deed τ α} : Retrieval x → Retrieval x.attempt
  | getsExcept {α : Type} (f : World τ → Except Error α) : Retrieval (Act.getsExcept f)
  | modifyGet {α : Type} (f : World τ → α × World τ) : Retrieval (Act.modifyGet f)
  | pause : Retrieval Act.pause
  | spawn {body : TaskId → Deed τ Value} : (∀ t, Retrieval (body t)) → Retrieval (Act.spawn body)
  | join (t : TaskId) : Retrieval (Act.join t)
  | cancel (t : TaskId) : Retrieval (Act.cancel t)
  | rows (q : Query) : Retrieval q.rows
  | get (q : Query) (registry : Value) : Retrieval (q.get registry)
  | getWithKeys (q : Query) (column registry : Value) :
    Retrieval (q.fetch Loader.load column registry)
  | first (q : Query) : Retrieval q.first
  | firstOrFail (q : Query) : Retrieval q.firstOrFail
  | find (q : Query) (identifier : Value) : Retrieval (q.find identifier)
  | findOrFail (q : Query) (identifier : Value) : Retrieval (q.findOrFail identifier)
  | pluck (q : Query) (column key : Value) : Retrieval (q.pluck column key)
  | value (q : Query) (column : Value) : Retrieval (q.value column)
  | aggregate (q : Query) (function column : Value) : Retrieval (q.aggregate function column)
  | count (q : Query) (column : Value) : Retrieval (q.count column)
  | exists_ (q : Query) : Retrieval q.exists_
  | chunk (q : Query) (size : Value) {use : Value → Deed τ Bool} :
    (∀ page, Retrieval (use page)) → Retrieval (q.chunk size use)
  | each (q : Query) {use : Value → Deed τ Unit} : (∀ o, Retrieval (use o)) → Retrieval (q.each use)
  | load (self : Loader) (objects paths : List Value) : Retrieval (Loader.load self objects paths)
  | loadMany (objects : List Value) (relations registry : Value) (force : Bool) :
    Retrieval (loadMany objects relations registry force)
  | loadCounts (objects : List Value) (relations : Value) : Retrieval (loadCounts objects relations)
  | loadForAll (self : ObjectId) (relations registry : Value) :
    Retrieval (loadForAll self relations registry)

/-- A step of retrieving that begins by asking for the rows of a statement, as the context. -/
inductive Asks (s : Statement) : String → {α : Type} → Deed τ α → Prop
  | rows (q : Query) : q.statement = s → Asks s "rows" q.rows
  | fetch (load : LoadPaths τ) (q : Query) (column registry : Value) :
    q.statement = s → Asks s "get" (q.fetch load column registry)
  | aggregate (q : Query) (function : String) (column : Value) :
    (q.aggregated function column).statement = s →
      Asks s "aggregate" (q.aggregate (.text function) column)
  | andThen {α β : Type} {context : String} {x : Deed τ α} (f : α → Deed τ β) :
    Asks s context x → Asks s context (x >>= f)

end Deed

open Deed (Made)

namespace Query

variable {τ : Type} {R : World τ → World τ → Prop} {P : Request → Prop}

theorem made_first (q : Query) : Made (τ := τ) World.Grows q.first :=
  (made_get _ _).bind fun _ => .pure _

theorem made_firstOrFail (q : Query) : Made (τ := τ) World.Grows q.firstOrFail := by
  refine (made_first q).bind fun found => ?_
  split
  · exact .throw _
  · exact .pure _

theorem made_find (q : Query) (identifier : Value) :
    Made (τ := τ) World.Grows (q.find identifier) :=
  (Made.ofExcept _).bind fun narrowed => made_first narrowed

theorem made_findOrFail (q : Query) (identifier : Value) :
    Made (τ := τ) World.Grows (q.findOrFail identifier) := by
  refine (made_find q identifier).bind fun found => ?_
  split
  · exact (Made.gets _).bind fun _ => .throw _
  · exact .pure _

theorem made_pluck (q : Query) (column key : Value) :
    Made (τ := τ) World.Grows (q.pluck column key) := by
  refine (made_get q _).bind fun fetched => (Made.ofExcept _).bind fun name => ?_
  split
  · exact (Made.mapM fun _ => Deed.made_propertyOrNull _ _).bind fun _ => .pure _
  · refine (Made.ofExcept _).bind fun keyName => ?_
    exact (Made.mapM fun _ => (Deed.made_propertyOrNull _ _).bind fun _ =>
      (Deed.made_propertyOrNull _ _).bind fun _ => .pure _).bind fun _ => .getsExcept _

theorem made_value (q : Query) (column : Value) : Made (τ := τ) World.Grows (q.value column) := by
  refine (made_first q).bind fun found => ?_
  split
  · exact .pure _
  · exact (Made.ofExcept _).bind fun _ => Deed.made_propertyOrNull _ _

theorem made_aggregate (q : Query) (function column : Value) :
    Made (τ := τ) R (q.aggregate function column) := by
  unfold aggregate
  split
  · refine .ofExcept_bind fun f passed => (Deed.made_execute passed _).bind fun rows => ?_
    split
    · exact .pure _
    · split
      · exact .pure _
      · exact .throw _
  · exact .throw _

theorem made_count (q : Query) (column : Value) : Made (τ := τ) R (q.count column) := by
  refine (made_aggregate q _ _).bind fun v => ?_
  split
  · exact .ofExcept _
  · exact .pure _

theorem made_exists (q : Query) : Made (τ := τ) R q.exists_ :=
  (made_count q _).bind fun _ => .pure _

/-- Pages are handed over as the guard let them through, by induction on how many there may be. -/
theorem sendsOnly_pagesFrom (q : Query) (size : Value) {use : Value → Deed τ Bool}
    (uses : ∀ page, (use page).SendsOnly Request.Checked) (more : Nat) (page : Int) :
    (q.pagesFrom size use more page).SendsOnly Request.Checked := by
  induction more generalizing page with
  | zero => exact .fail _
  | succ more ih =>
    refine (Act.SendsOnly.ofExcept _).bind fun before => ?_
    refine (made_get _ _).sendsOnly.bind fun fetched => ?_
    split
    · exact .pure _
    · refine (uses _).bind fun wanted => ?_
      split
      · exact .pure _
      · split
        · exact .fail _
        · exact .pure _
        · exact ih _

theorem sendsOnly_each (q : Query) {use : Value → Deed τ Unit}
    (uses : ∀ o, (use o).SendsOnly Request.Checked) : (q.each use).SendsOnly Request.Checked :=
  (made_get q _).sendsOnly.bind fun _ => .forM fun _ _ => uses _

end Query

namespace Deed

variable {τ : Type} {R : World τ → World τ → Prop}

theorem made_loadMany (objects : List Value) (relations registry : Value) (force : Bool) :
    Made (τ := τ) World.Grows (loadMany objects relations registry force) := by
  unfold loadMany
  dsimp only
  split
  · exact .pure _
  · exact (Made.getsExcept _).bind fun _ => Loader.made_load _ _ _

/-- Counting sets columns of the objects, so it changes more than growing does. -/
theorem made_loadCounts (objects : List Value) (relations : Value) :
    Made (τ := τ) (fun _ _ => True) (loadCounts objects relations) := by
  have modified (v : Value) (f : Entity → Entity) :
      Made (τ := τ) (fun _ _ => True) (modifyEntity v f) := by
    unfold modifyEntity
    split
    · exact .modify fun _ => trivial
    · exact .throw _
  refine (Made.mapM fun _ => (Made.getsExcept _).bind fun _ => .pure _).bind fun withIds => ?_
  dsimp only
  split
  · exact .pure _
  · refine (Made.getsExcept _).bind fun q => (Made.ofExcept _).bind fun names => ?_
    refine (Query.made_rows q).bind fun rows => (Made.mapM fun row => ?_).bind fun keyed => ?_
    · split
      · split
        · exact .pure _
        · exact .throw _
      · exact .throw _
    · refine .forM fun _ => .forM fun _ => ?_
      split
      · exact (Made.ofExcept _).bind fun _ => modified _ _
      · exact (Made.pure _).bind fun _ => modified _ _

theorem sendsOnly_coordinate (registry : RegistryId) (key : Value) {load : Deed τ Value}
    (loads : load.SendsOnly Request.Checked) :
    (coordinate registry key load).SendsOnly Request.Checked := by
  refine (Act.SendsOnly.gets _).bind fun r => ?_
  split
  · exact .join _
  · exact (Act.SendsOnly.spawn fun _ => loads.always (.modify _)).bind fun _ =>
      (Act.SendsOnly.modify _).bind fun _ => .join _

theorem sendsOnly_knownOn (own : Entity) (targets : List Value) (names : List String)
    (given : Value) : (knownOn (τ := τ) own targets names given).SendsOnly Request.Checked := by
  refine Made.sendsOnly (R := World.Grows) ?_
  unfold knownOn
  split
  · refine (Made.gets _).bind fun loaded => ?_
    split
    · refine (Made.ofExcept _).bind fun _ => ?_
      exact (made_markObjects (fun w _ => .of_registries w _) _).bind fun _ => .pure _
    · exact .pure _
  · refine (Made.ofExcept _).bind fun _ => (Made.getsExcept _).bind fun _ => ?_
    exact made_changeMarks fun w => .of_registries w _

theorem sendsOnly_flightKey (own : Entity) (members paths : List Value) :
    (flightKey (τ := τ) own members paths).SendsOnly Request.Checked := by
  unfold flightKey
  split
  · exact .pure _
  · exact (Act.SendsOnly.getsExcept _).bind fun _ => .pure _

theorem made_loadTargets (r : LoadRequest) (given : Value) (registry : RegistryId)
    (targets : List Value) (names : List String) :
    Made (τ := τ) World.Grows (loadTargets r given registry targets names) :=
  (Loader.made_load _ _ _).bind fun _ =>
    (made_markObjects (fun w _ => .of_registries w _) _).bind fun _ => .pure _

theorem sendsOnly_receive (self : ObjectId) (names : List String) (loaded : Value) :
    (receive (τ := τ) self names loaded).SendsOnly Request.Checked := by
  refine (Act.SendsOnly.gets _).bind fun complete => ?_
  split
  · split
    · exact .modify _
    · exact .pure _
  · exact .pure _

theorem sendsOnly_loadForAll (self : ObjectId) (relations given : Value) :
    (loadForAll (τ := τ) self relations given).SendsOnly Request.Checked := by
  refine (Act.SendsOnly.getsExcept _).bind fun r => (Act.SendsOnly.ofExcept _).bind fun names => ?_
  refine (Act.SendsOnly.getsExcept _).bind fun own => (Act.SendsOnly.gets _).bind fun members => ?_
  refine (sendsOnly_knownOn _ _ _ _).bind fun known => ?_
  split
  · exact .pure _
  · refine (Act.SendsOnly.ofExcept _).bind fun registry => ?_
    refine (sendsOnly_flightKey _ _ _).bind fun key => ?_
    exact (sendsOnly_coordinate _ _ (made_loadTargets _ _ _ _ _).sendsOnly).bind fun loaded =>
      sendsOnly_receive _ _ _

/-- A program that retrieves sends only what the guard let through. -/
theorem Retrieval.sendsOnly {α : Type} {x : Deed τ α} (h : Retrieval x) :
    x.SendsOnly Request.Checked := by
  induction h with
  | ofExcept r => exact .ofExcept r
  | bind _ _ ihx ihf => exact ihx.bind ihf
  | attempt _ ih => exact ih.attempt
  | getsExcept f => exact .getsExcept f
  | modifyGet f => exact .modifyGet f
  | pause => exact .pause
  | spawn _ ih => exact .spawn ih
  | join t => exact .join t
  | cancel t => exact .cancel t
  | rows q => exact (Query.made_rows (R := World.Grows) q).sendsOnly
  | get q registry => exact (Query.made_get q registry).sendsOnly
  | getWithKeys q column registry =>
    exact (Query.made_fetch Loader.made_load q column registry).sendsOnly
  | first q => exact (Query.made_first q).sendsOnly
  | firstOrFail q => exact (Query.made_firstOrFail q).sendsOnly
  | find q identifier => exact (Query.made_find q identifier).sendsOnly
  | findOrFail q identifier => exact (Query.made_findOrFail q identifier).sendsOnly
  | pluck q column key => exact (Query.made_pluck q column key).sendsOnly
  | value q column => exact (Query.made_value q column).sendsOnly
  | aggregate q function column =>
    exact (Query.made_aggregate (R := World.Grows) q function column).sendsOnly
  | count q column => exact (Query.made_count (R := World.Grows) q column).sendsOnly
  | exists_ q => exact (Query.made_exists (R := World.Grows) q).sendsOnly
  | chunk q size _ ih => exact Query.sendsOnly_pagesFrom q size ih _ _
  | each q _ ih => exact Query.sendsOnly_each q ih
  | load self objects paths => exact (Loader.made_load self objects paths).sendsOnly
  | loadMany objects relations registry force =>
    exact (made_loadMany objects relations registry force).sendsOnly
  | loadCounts objects relations => exact (made_loadCounts objects relations).sendsOnly
  | loadForAll self relations registry => exact sendsOnly_loadForAll self relations registry

end Deed

theorem Request.Checked.readOnly {r : Request} (h : r.Checked) :
    Guard.ReadOnly r.sql ∧
      ∃ (s : Statement) (f : Fragment),
        s.compile = .ok f ∧ r.sql = f.text ∧ r.params = f.values := by
  obtain ⟨s, context, f, passed, text, values⟩ := h
  obtain ⟨compiled, reads⟩ := Statement.checked_eq_ok_iff_readOnly.mp passed
  exact ⟨text ▸ reads, s, f, compiled, text, values⟩

namespace Deed

variable {τ : Type} {α : Type} {s : Statement} {context : String} {x : Deed τ α}

/-- A step whose statement does not only read ends as a violation, and nothing else. -/
theorem Asks.eq_fail (h : Asks s context x) {f : Fragment} (compiled : s.compile = .ok f)
    (writes : ¬ Guard.ReadOnly f.text) :
    ∃ reason, x = Act.fail (.readOnly context reason) := by
  obtain ⟨reason, refused⟩ := Statement.checked_of_not_readOnly compiled writes
  refine ⟨reason, ?_⟩
  induction h with
  | rows q same =>
    rw [Query.rows, same, refused]
    rfl
  | fetch load q column registry same =>
    rw [Query.fetch, same, refused]
    rfl
  | aggregate q function column same =>
    rw [Query.aggregate, same, refused]
    rfl
  | andThen f _ ih =>
    rw [ih]
    rfl

theorem asks_first (q : Query) :
    Asks (τ := τ) (q.mapSelect fun s => { s with limit := .int 1 }).statement "get" q.first :=
  .andThen _ (.fetch _ _ _ _ rfl)

theorem asks_pluck (q : Query) (column key : Value) :
    Asks (τ := τ) q.statement "get" (q.pluck column key) := .andThen _ (.fetch _ _ _ _ rfl)

theorem asks_count (q : Query) (column : Value) :
    Asks (τ := τ) (q.aggregated "COUNT" column).statement "aggregate" (q.count column) :=
  .andThen _ (.aggregate _ _ _ rfl)

/-- What a program that retrieves hands over along a run is compiled statements that only read, as
they were compiled; so a runner is asked for nothing else. A step whose statement does not only
read is a violation before anything is handed over. -/
theorem Retrieval.hands_over_reads {x : Deed τ Value} (h : Retrieval x) :
    (∀ {sent : List Request} {rest : Process (World τ)}, Process.Run (x .done) sent rest →
      ∀ r ∈ sent, Guard.ReadOnly r.sql ∧
        ∃ (s : Statement) (f : Fragment),
          s.compile = .ok f ∧ r.sql = f.text ∧ r.params = f.values) ∧
    (∀ runner other : Request → Deed τ (List Row),
      (∀ r, Guard.ReadOnly r.sql → runner r = other r) →
      (x .done).answered runner = (x .done).answered other) ∧
    ∀ {α : Type} {step : Deed τ α} {s : Statement} {context : String} {f : Fragment},
      Asks s context step → s.compile = .ok f → ¬ Guard.ReadOnly f.text →
      ∃ reason, step = Act.fail (.readOnly context reason) := by
  refine ⟨fun steps r there => ?_, fun runner other agree => ?_, fun asks => asks.eq_fail⟩
  · exact (h.sendsOnly.run steps r there).readOnly
  · exact (h.sendsOnly .done fun _ => trivial).answered_congr fun r passed =>
      agree r passed.readOnly.1

/-- The rows of all posts, and nothing of them. -/
def readPosts : Deed Unit Value := newPosts.rows >>= fun _ => pure .null

/-- A world where only the posts are known, on one connection. -/
def postWorld : World Unit where
  toEnv := plainEnv
  tagMaps := #[]
  connections := [("default", 0)]
  warnings := []
  rest := ()

/-- Posts with a condition that would write, past the check of raw texts. -/
def droppingPosts : Query :=
  newPosts.mapSelect fun s =>
    { s with conditions := [.leaf .and (.raw "1; DROP TABLE posts" [] "where_raw")] }

/-- Reading all posts hands over one statement, which reads; the condition that would write makes
a violation of the same step. -/
theorem readPosts_hands_over :
    (∃ rest, Process.Run (readPosts .done) [⟨0, "SELECT * FROM posts", []⟩] rest) ∧
      Guard.ReadOnly "SELECT * FROM posts" ∧
      ∃ reason, droppingPosts.rows (τ := Unit) = Act.fail (.readOnly "rows" reason) := by
  have retrieves : Retrieval readPosts := .bind (.rows _) fun _ => .ofExcept _
  have passed : newPosts.statement.checked "rows" = .ok ⟨"SELECT * FROM posts", []⟩ := by
    refine Statement.checked_eq_ok_iff.mpr ⟨by rfl, Guard.checkStatement_ofList _ ?_ ?_⟩
    · decide +kernel
    · decide +kernel
  have run : ∃ rest, Process.Run (readPosts .done) [⟨0, "SELECT * FROM posts", []⟩] rest := by
    unfold readPosts Query.rows
    rw [passed]
    exact ⟨_, .step (.get _ postWorld) (.step (.ask _ _ (.ok [])) (.rest _))⟩
  obtain ⟨rest, steps⟩ := run
  have dropping : droppingPosts.statement.compile =
      .ok ⟨"SELECT * FROM posts WHERE (1; DROP TABLE posts)", []⟩ := rfl
  obtain ⟨reads, _, violates⟩ := retrieves.hands_over_reads
  exact ⟨⟨rest, steps⟩, (reads steps _ List.mem_cons_self).1,
    violates (.rows droppingPosts rfl) dropping fun h => h.single (by decide)⟩

end Deed

end Relata
