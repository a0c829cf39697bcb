import Relata.Proofs.Process.Goes

/-!
Pieces of a run. Whatever an action does in all, a piece of it is run from one state to another on the
way: before the piece begins and after it has ended only such changes are made as the action may make.
So what a piece leaves behind can be looked up again when the whole has ended.
-/

namespace Relata

variable {σ α β : Type} {rely : σ → σ → Prop} {pact : Pact σ}

namespace Process

/-- A process that comes to one of its last pieces is left on the way there, with changes that it may
make: by induction on the way. -/
theorem Alike.along {last last' : Except Error α → Process σ} {Q : Except Error α → σ → Prop}
    {p p' q : Process σ} {s t : σ} {sent : Dialogue} (refl : ∀ s, pact.guar s s)
    (trans : ∀ {s t u}, pact.guar s t → pact.guar t u → pact.guar s u)
    (others : ∀ {s t}, rely s t → pact.rely s t ∧ pact.guar s t) (ended : ∀ r, ∃ o, last r = .done o)
    (alike : Alike pact last last' Q p q s) (goes : Goes rely p s sent p' t) :
    pact.guar s t ∧ ∃ q', Alike pact last last' Q p' q' t := by
  induction alike generalizing sent with
  | @ends r s came =>
    obtain ⟨o, done⟩ := ended r
    rw [done] at goes
    cases goes
    exact ⟨refl _, last' r, done ▸ .ends came⟩
  | left whole ih =>
    cases goes with
    | rest => exact ⟨refl _, _, .left whole⟩
    | get goes => exact ih goes
  | right _ ih => exact ih goes
  | change allowed whole ih =>
    cases goes with
    | rest => exact ⟨refl _, _, .change allowed whole⟩
    | set goes => exact (ih goes).imp_left (trans allowed)
  | ask waits whole ih =>
    cases goes with
    | rest => exact ⟨refl _, _, .ask waits whole⟩
    | ask rely goes =>
      obtain ⟨beside, change⟩ := others rely
      exact (ih _ _ beside goes).imp_left (trans change)

/-- What waits for nothing goes on in one way only. -/
theorem Goes.past {p q : Process σ} {s t u : σ} {sent : Dialogue} {o : Except Error Value}
    (silent : Goes Eq p s [] q t) (h : Goes rely p s sent (.done o) u) : Goes rely q t sent (.done o) u := by
  generalize none_ : ([] : Dialogue) = first at silent
  induction silent with
  | rest => exact h
  | get _ ih =>
    cases h with
    | get h => exact ih h none_
  | set _ ih =>
    cases h with
    | set h => exact ih h none_
  | ask => cases none_

end Process

namespace Act

open Process (Goes)

/-- An action that has come to a piece goes on with the piece, whatever comes after it. -/
theorem Reaches.goes {x : Act σ α} {y : Act σ β} {s t : σ} {sent : Dialogue} (h : Reaches rely y t x s sent)
    (next : Except Error α → Process σ) : ∃ rest, Goes rely (x next) s sent (y rest) t := by
  induction h with
  | here => exact ⟨next, .rest _ _⟩
  | into _ ih => exact ih _
  | after runs _ ih =>
    obtain ⟨rest, goes⟩ := ih next
    exact ⟨rest, (runs _).trans goes⟩
  | reads same _ ih =>
    obtain ⟨rest, goes⟩ := ih next
    exact ⟨rest, .of_reads (same next) goes⟩

/-- On its way from one state to another, with those statements, an action has a piece run: from `u` to
`v`, with a result and with the statements `during` among the others. Whatever is made of the result of the
action is the end. -/
def Spans (rely : σ → σ → Prop) (x : Act σ α) (s : σ) (sent : Dialogue) (t : σ) (y : Act σ β) (u : σ)
    (during : Dialogue) (b : Except Error β) (v : σ) : Prop :=
  ∃ (code : Except Error α → Except Error Value) (rest : Except Error β → Process σ)
    (before after : Dialogue) (o : Except Error Value), sent = before ++ during ++ after ∧
      Goes rely (x fun r => .done (code r)) s before (y rest) u ∧ Runs rely y u during b v ∧
      Goes rely (rest b) v after (.done o) t

variable {x : Act σ α} {y : Act σ β} {s t u v : σ} {sent during : Dialogue} {b : Except Error β}
  {Q : Except Error α → σ → Prop}

theorem Spans.runs (h : x.Spans rely s sent t y u during b v) : Runs rely y u during b v := by
  obtain ⟨_, _, _, _, _, -, -, runs, -⟩ := h
  exact runs

/-- Before a piece and after it only such changes are made as the whole may make. -/
theorem Spans.changes (h : x.Spans rely s sent t y u during b v) (ends : x.Ends pact s Q)
    (refl : ∀ s, pact.guar s s) (trans : ∀ {s t u}, pact.guar s t → pact.guar t u → pact.guar s u)
    (others : ∀ {s t}, rely s t → pact.rely s t ∧ pact.guar s t) : pact.guar s u ∧ pact.guar v t := by
  obtain ⟨code, rest, before, after, o, -, first, runs, last⟩ := h
  have along {p p' q : Process σ} {s t : σ} {sent : Dialogue}
      (alike : Process.Alike pact (fun r => .done (code r)) (fun r => .done (code r)) Q p q s) :=
    @Process.Alike.along _ _ rely pact _ _ Q p p' q s t sent refl trans others (fun r => ⟨_, rfl⟩) alike
  obtain ⟨begun, _, alike⟩ := along (ends _ _) first
  obtain ⟨-, _, alike⟩ := along alike (runs rest)
  exact ⟨begun, (along alike last).1⟩

end Act

end Relata
