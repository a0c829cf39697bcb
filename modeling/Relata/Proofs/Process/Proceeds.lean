import Relata.Proofs.Process.Goes

/-!
Runs of a task among others. Besides rows it may wait for its next turn or for another task, start tasks
and cancel them; whenever it waits, the others change the state as they may, and what it is told is left
open. Every task comes to an end in this way. An action that hands its outcome on is one that whoever
comes to an end after it has come through first, as all actions are that are put together from the usual
pieces.
-/

namespace Relata

variable {σ α β : Type} {rely : σ → σ → Prop}

namespace Process

/-- A process in a state goes on, as one of many, until another one is left. -/
inductive Proceeds (rely : σ → σ → Prop) : Process σ → σ → Dialogue → Process σ → σ → Prop
  | rest (p : Process σ) (s : σ) : Proceeds rely p s [] p s
  | get {next : σ → Process σ} {s t : σ} {sent : Dialogue} {q : Process σ} :
    Proceeds rely (next s) s sent q t → Proceeds rely (.get next) s sent q t
  | set {p q : Process σ} {s s' t : σ} {sent : Dialogue} :
    Proceeds rely p s' sent q t → Proceeds rely (.set s' p) s sent q t
  | ask {r : Request} {next : Except Error (List Row) → Process σ} {s s' t : σ}
    {rows : Except Error (List Row)} {sent : Dialogue} {q : Process σ} : rely s s' →
      Proceeds rely (next rows) s' sent q t → Proceeds rely (.ask r next) s ((r, rows) :: sent) q t
  | pause {next : Except Error Unit → Process σ} {s s' t : σ} {signal : Except Error Unit}
    {sent : Dialogue} {q : Process σ} : rely s s' →
      Proceeds rely (next signal) s' sent q t → Proceeds rely (.pause next) s sent q t
  | spawn {body next : TaskId → Process σ} {s t : σ} {task : TaskId} {sent : Dialogue} {q : Process σ} :
    Proceeds rely (next task) s sent q t → Proceeds rely (.spawn body next) s sent q t
  | join {task : TaskId} {next : Except Error Value → Process σ} {s s' t : σ}
    {outcome : Except Error Value} {sent : Dialogue} {q : Process σ} : rely s s' →
      Proceeds rely (next outcome) s' sent q t → Proceeds rely (.join task next) s sent q t
  | cancel {task : TaskId} {p q : Process σ} {s t : σ} {sent : Dialogue} :
    Proceeds rely p s sent q t → Proceeds rely (.cancel task p) s sent q t

theorem Proceeds.trans {p q q' : Process σ} {s t u : σ} {sent later : Dialogue}
    (h : Proceeds rely p s sent q t) (h' : Proceeds rely q t later q' u) :
    Proceeds rely p s (sent ++ later) q' u := by
  induction h with
  | rest => exact h'
  | get _ ih => exact .get (ih h')
  | set _ ih => exact .set (ih h')
  | ask others _ ih => exact .ask others (ih h')
  | pause others _ ih => exact .pause others (ih h')
  | spawn _ ih => exact .spawn (ih h')
  | join others _ ih => exact .join others (ih h')
  | cancel _ ih => exact .cancel (ih h')

/-- The end is the end. -/
theorem Proceeds.ended {o o' : Except Error Value} {s t : σ} {sent : Dialogue}
    (h : Proceeds rely (.done o) s sent (.done o') t) : sent = [] ∧ o = o' ∧ s = t := by
  cases h
  exact ⟨rfl, rfl, rfl⟩

/-- What waits for nothing goes on in one way only. -/
theorem Proceeds.past {p q : Process σ} {s t u : σ} {sent : Dialogue} {o : Except Error Value}
    (silent : Goes Eq p s [] q t) (h : Proceeds rely p s sent (.done o) u) :
    Proceeds rely q t sent (.done o) u := by
  generalize none_ : ([] : Dialogue) = first at silent
  induction silent with
  | rest => exact h
  | get _ ih =>
    cases h with
    | get h => exact ih h none_
  | set _ ih =>
    cases h with
    | set h => exact ih h none_
  | ask => cases none_

end Process

namespace Act

/-- An action of a task among others comes to a result and a later state. -/
def Proceeds (rely : σ → σ → Prop) (x : Act σ α) (s : σ) (sent : Dialogue) (r : Except Error α)
    (t : σ) : Prop := ∀ next, Process.Proceeds rely (x next) s sent (next r) t

/-- Whoever comes to an end after the action has come through it. -/
structure HandsOn (rely : σ → σ → Prop) (x : Act σ α) : Prop where
  through : ∀ {next : Except Error α → Process σ} {s sent o t},
    Process.Proceeds rely (x next) s sent (.done o) t →
      ∃ first later r u, sent = first ++ later ∧ x.Proceeds rely s first r u ∧
        Process.Proceeds rely (next r) u later (.done o) t

namespace Proceeds

variable {x : Act σ α} {s t u : σ} {sent later : Dialogue}

theorem ofExcept (r : Except Error α) (s : σ) : (Act.ofExcept r).Proceeds rely s [] r s :=
  fun _ => .rest _ _

theorem bind {f : α → Act σ β} {a : α} {r : Except Error β} (h : x.Proceeds rely s sent (.ok a) t)
    (hf : (f a).Proceeds rely t later r u) : (x >>= f).Proceeds rely s (sent ++ later) r u :=
  fun next => (h _).trans (hf next)

theorem bind_error {e : Error} (h : x.Proceeds rely s sent (.error e) t) (f : α → Act σ β) :
    (x >>= f).Proceeds rely s sent (.error e) t := fun _ => h _

theorem attempt {r : Except Error α} (h : x.Proceeds rely s sent r t) :
    x.attempt.Proceeds rely s sent (.ok r) t := fun _ => h _

end Proceeds

namespace HandsOn

variable {x : Act σ α}

theorem ofExcept (r : Except Error α) : (Act.ofExcept r : Act σ α).HandsOn rely where
  through h := ⟨[], _, r, _, rfl, .ofExcept r _, h⟩

theorem pure (a : α) : (Pure.pure a : Act σ α).HandsOn rely := ofExcept (.ok a)

theorem bind {f : α → Act σ β} (hx : x.HandsOn rely) (hf : ∀ a, (f a).HandsOn rely) :
    (x >>= f).HandsOn rely where
  through h := by
    obtain ⟨first, later, r, u, rfl, own, rest⟩ := hx.through h
    cases r with
    | error e => exact ⟨first, later, .error e, u, rfl, own.bind_error f, rest⟩
    | ok a =>
      obtain ⟨second, last, r, v, rfl, own', rest⟩ := (hf a).through rest
      exact ⟨first ++ second, last, r, v, (List.append_assoc ..).symm, own.bind own', rest⟩

theorem attempt (hx : x.HandsOn rely) : x.attempt.HandsOn rely where
  through h := by
    obtain ⟨first, later, r, u, rfl, own, rest⟩ := hx.through h
    exact ⟨first, later, .ok r, u, rfl, own.attempt, rest⟩

theorem getsExcept (f : σ → Except Error α) : (Act.getsExcept f).HandsOn rely where
  through h := by
    cases h with
    | get h => exact ⟨[], _, f _, _, rfl, fun _ => .get (.rest _ _), h⟩

theorem modifyGet (f : σ → α × σ) : (Act.modifyGet f).HandsOn rely where
  through h := by
    cases h with
    | get h => cases h with
      | set h => exact ⟨[], _, .ok _, _, rfl, fun _ => .get (.set (.rest _ _)), h⟩

theorem ask (r : Request) : (Act.ask r : Act σ (List Row)).HandsOn rely where
  through h := by
    cases h with
    | ask others h => exact ⟨[_], _, _, _, rfl, fun _ => .ask others (.rest _ _), h⟩

theorem pause : (Act.pause : Act σ Unit).HandsOn rely where
  through h := by
    cases h with
    | pause others h => exact ⟨[], _, _, _, rfl, fun _ => .pause others (.rest _ _), h⟩

theorem spawn (body : TaskId → Act σ Value) : (Act.spawn body).HandsOn rely where
  through h := by
    cases h with
    | spawn h => exact ⟨[], _, _, _, rfl, fun _ => .spawn (.rest _ _), h⟩

theorem join (task : TaskId) : (Act.join task : Act σ Value).HandsOn rely where
  through h := by
    cases h with
    | join others h => exact ⟨[], _, _, _, rfl, fun _ => .join others (.rest _ _), h⟩

theorem cancel (task : TaskId) : (Act.cancel task : Act σ Unit).HandsOn rely where
  through h := by
    cases h with
    | cancel h => exact ⟨[], _, _, _, rfl, fun _ => .cancel (.rest _ _), h⟩

end HandsOn

end Act

end Relata
