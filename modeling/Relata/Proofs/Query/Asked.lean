import Relata.Loading.Shared
import Relata.Proofs.Loading.Grouped
import Relata.Proofs.Query.Steps

/-!
The paths that a query asks for. Columns written behind a path are taken off before it is asked for, so
no path has a colon in it.
-/

namespace Relata

namespace RelationPath

theorem mem_of_cutAt_none {sep : Char} {s : List Char} (h : (Text.cutAt sep s).2 = none) :
    sep ∉ s := by
  have whole := Text.cutAt_append sep s
  rw [h, List.append_nil] at whole
  rw [whole]
  exact Text.not_mem_cutAt_fst sep s

/-- What is read of a path has no colon in it. -/
theorem bare_of_parse {v : Value} {relation : Value} {columns : List Value}
    (h : parse v = .ok (relation, columns)) {path : String} (text : relation = .text path) :
    ':' ∉ path.toList := by
  subst text
  cases v with
  | text s =>
    simp only [parse, Except.ok.injEq, Prod.mk.injEq, Value.text.injEq] at h
    rw [← h.1]
    unfold read
    split
    · next cut => exact mem_of_cutAt_none (by rw [cut])
    · next relation _ cut =>
      have own := Text.not_mem_cutAt_fst ':' s.toList
      rw [cut] at own
      simpa using own
  | _ =>
    unfold parse at h
    dsimp only at h
    split at h <;> cases h

end RelationPath

theorem Value.eq_text_of_same {s : String} {v : Value} (same : (Value.text s).same v = true) :
    v = .text s := by
  cases v with
  | text t => rw [show s = t by simpa [Value.same] using same]
  | _ => simp [Value.same] at same

/-- The paths that are asked for have no columns left in them. -/
def Query.Bare (q : Query) : Prop := ∀ path, .text path ∈ q.loads.paths → ':' ∉ path.toList

theorem LoadRequest.mem_paths_addPath {r : LoadRequest} {s : String} {v : Value} :
    v ∈ (r.addPath (.text s)).paths ↔ v ∈ r.paths ∨ v = .text s := by
  unfold addPath
  dsimp only
  split
  · next known =>
    obtain ⟨u, there, same⟩ := List.any_eq_true.mp known
    obtain rfl := Value.eq_text_of_same same
    exact ⟨.inl, fun h => h.elim id fun own => own ▸ there⟩
  · rw [List.mem_append, List.mem_singleton]

namespace Build

theorem bare_request {path : Value} (bare : ∀ s, path = .text s → ':' ∉ s.toList)
    (columns : List Value) (callback : Value) :
    Keeps Query.Bare (request path columns callback) fun _ => True := by
  have asked : Keeps Query.Bare (modifyLoads (·.addPath path)) fun _ => True := by
    refine Keeps.changeLoads fun q h s there => ?_
    unfold LoadRequest.addPath at there
    dsimp only at there
    split at there
    · exact h s there
    · rcases List.mem_append.mp there with old | new
      · exact h s old
      · exact bare s (List.mem_singleton.mp new).symm
  have refined : Keeps Query.Bare
      (if !callback.isNull then do checkKey path; modifyLoads (·.refine path callback)
        else pure ()) fun _ => True := by
    split
    · exact steady_checkKey.keeps.seq (.changeLoads fun _ h => h)
    · exact .pure trivial
  unfold request
  refine asked.seq ?_
  dsimp only
  split
  · exact steady_checkKey.keeps.seq ((Keeps.changeLoads fun _ h => h).seq refined)
  · exact refined

/-- Asking for what a value names keeps what each request for a path without columns keeps. -/
theorem keeps_with_of_request {I : Query → Prop}
    (h : ∀ path columns callback, (∀ s, path = .text s → ':' ∉ s.toList) →
      Keeps I (request path columns callback) fun _ => True) (relations callback : Value) :
    Keeps I (with_ relations callback) fun _ => True := by
  have one (path callback : Value) : Keeps I (withPath path callback) fun _ => True :=
    (Keeps.ofExcept (P := fun read => RelationPath.parse path = .ok read)
      fun _ same => same).bind fun _ parsed => h _ _ _ fun _ => RelationPath.bare_of_parse parsed
  unfold with_
  split
  · exact one _ _
  · refine .forM fun entry _ => ?_
    change Keeps _ (withEntry entry.1 entry.2) _
    unfold withEntry
    split
    · exact (Keeps.ofExcept (P := fun read => RelationPath.parse entry.1 = .ok read)
        fun _ same => same).bind fun _ parsed => h _ _ _ fun _ => RelationPath.bare_of_parse parsed
    · exact one _ _
  · exact steady_itemsOf.keeps.bind fun _ _ => .forM fun _ _ => one _ _

theorem bare_with_ (relations callback : Value) :
    Keeps Query.Bare (with_ relations callback) fun _ => True :=
  keeps_with_of_request (fun _ columns callback bare => bare_request bare columns callback) _ _

/-- A call that asks for paths asks for them without columns. -/
theorem bare_call (env : Env) (inner : Caller) (args : List Value) (named : List (String × Value)) :
    Keeps Query.Bare (call env inner (.mk "with_" args named)) fun _ => True := by
  refine (steady_settleItems args).keeps.bind fun settled _ =>
    (steady_settleNamed named).keeps.bind fun settledNamed _ => ?_
  rw [show Method.ofName? (Call.mk "with_" args named).method = some .with_ from rfl]
  refine (Keeps.ofExcept fun _ _ => trivial).bind fun bound _ => ?_
  unfold perform
  dsimp only
  split
  · next relations callback =>
    have given : Steady (givenPaths env inner relations) := by
      unfold givenPaths
      split
      · exact .pure
      · exact steady_opened
    exact (given.keeps.bind fun _ _ => bare_with_ _ _).seq (.pure trivial)
  · exact .throw

/-- A path is asked for without the columns written behind it, and nothing is refined. -/
theorem withPath_text (path : String) (q : Query) :
    ∃ after, withPath (.text path) .null q = .ok () after ∧ after.loads.callbacks = q.loads.callbacks ∧
      after.loads.paths = (q.loads.addPath (.text (RelationPath.read path).relation)).paths := by
  let asked := q.loads.addPath (.text (RelationPath.read path).relation)
  by_cases none : ((RelationPath.read path).columns.getD []).map Value.text = []
  · refine ⟨{ q with loads := asked }, bind_eq_ok rfl (bind_eq_ok rfl ?_), rfl, rfl⟩
    rw [none]
    rfl
  · let restricted := asked.restrict (.text (RelationPath.read path).relation)
      (.list (((RelationPath.read path).columns.getD []).map .text))
    refine ⟨{ q with loads := restricted }, bind_eq_ok rfl (bind_eq_ok rfl ?_), rfl, rfl⟩
    rw [if_pos (by simpa using none)]
    exact bind_eq_ok rfl (bind_eq_ok rfl rfl)

/-- The paths of a list are asked for one by one. -/
theorem forM_withPath_texts (paths : List String) (q : Query) :
    ∃ after, (paths.map Value.text).forM (fun path => withPath path .null) q = .ok () after ∧
      after.loads.callbacks = q.loads.callbacks ∧ ∀ v, v ∈ after.loads.paths ↔
        v ∈ q.loads.paths ∨ ∃ path ∈ paths, v = .text (RelationPath.read path).relation := by
  induction paths generalizing q with
  | nil => exact ⟨q, rfl, rfl, fun v => by simp⟩
  | cons path rest ih =>
    obtain ⟨one, asks, callbacks, asked⟩ := withPath_text path q
    obtain ⟨after, others, later, more⟩ := ih one
    refine ⟨after, bind_eq_ok asks others, later.trans callbacks, fun v => ?_⟩
    simp only [more, asked, LoadRequest.mem_paths_addPath, or_assoc, List.mem_cons, or_and_right, exists_or,
      exists_eq_left]

end Build

/-- A list of paths is always a request, for these paths and no others. -/
theorem Deed.request_texts (env : Env) (paths : List String) :
    ∃ r, request env (.list (paths.map .text)) = .ok r ∧ r.callbacks = [] ∧
      ∀ v, v ∈ r.paths ↔ ∃ path ∈ paths, v = .text (RelationPath.read path).relation := by
  obtain ⟨after, asks, callbacks, asked⟩ := Build.forM_withPath_texts paths (.blank default .null)
  have settled : Build.settleItems env (Build.callUpTo env 399) [.list (paths.map .text)]
      (.blank default .null) = .ok [.list (paths.map .text)] (.blank default .null) := by
    refine Build.bind_eq_ok ?_ (Build.bind_eq_ok rfl rfl)
    change (Value.list <$> Build.settleItems env _ (paths.map .text)) _ = _
    rw [map_eq_pure_bind]
    exact Build.bind_eq_ok (Build.settleItems_texts env _ paths _) rfl
  have called : env.call (.mk "with_" [.list (paths.map .text)] []) (.blank default .null) = .ok .self after :=
    Build.bind_eq_ok settled (Build.bind_eq_ok rfl (Build.bind_eq_ok rfl
      (Build.bind_eq_ok (Build.bind_eq_ok rfl (Build.bind_eq_ok rfl asks)) rfl)))
  refine ⟨after.loads, ?_, callbacks, fun v => ?_⟩
  · unfold request
    dsimp only
    rw [Build.finish_eq_ok called]
    rfl
  · rw [asked]
    exact or_iff_right List.not_mem_nil

theorem Deed.bare_of_request {env : Env} {relations : Value} {r : LoadRequest}
    (h : request env relations = .ok r) {path : String} (there : .text path ∈ r.paths) :
    ':' ∉ path.toList := by
  unfold request at h
  dsimp only at h
  cases built : Build.finish (Query.blank default .null) (env.call (.mk "with_" [relations] [])) with
  | error e =>
    rw [built] at h
    cases h
  | ok q =>
    rw [built] at h
    obtain rfl := Except.ok.inj h
    obtain ⟨_, run⟩ := Build.ok_of_finish built
    exact (Build.bare_call env _ [relations] [] _ (by simp [Query.Bare, Query.blank, LoadRequest.empty])
      _ _ run).1 path there

end Relata
