import Relata.Process.Basic

/-!
What a process hands over. A step of a process is taken whatever the state has become and whatever
it is told where it waits; where it starts a task, one step goes on with the process and another one
follows the task. So the runs of a process are those of it and of all tasks that it starts, in any
order in which a scheduler may let them go on.

A process sends only some requests if each piece of it does; that is kept by every step, so it holds
of what a whole run hands over, and no runner is asked for anything else.
-/

namespace Relata

namespace Process

variable {σ : Type} {P Q : Request → Prop}

/-- One step, with what is handed over in it. -/
inductive Step : Process σ → List Request → Process σ → Prop
  | get (next : σ → Process σ) (s : σ) : Step (.get next) [] (next s)
  | set (s : σ) (next : Process σ) : Step (.set s next) [] next
  | ask (r : Request) (next : Except Error (List Row) → Process σ)
    (rows : Except Error (List Row)) : Step (.ask r next) [r] (next rows)
  | pause (next : Except Error Unit → Process σ) (signal : Except Error Unit) :
    Step (.pause next) [] (next signal)
  | spawn (body next : TaskId → Process σ) (t : TaskId) : Step (.spawn body next) [] (next t)
  | begin (body next : TaskId → Process σ) (t : TaskId) : Step (.spawn body next) [] (body t)
  | join (t : TaskId) (next : Except Error Value → Process σ) (outcome : Except Error Value) :
    Step (.join t next) [] (next outcome)
  | cancel (t : TaskId) (next : Process σ) : Step (.cancel t next) [] next

/-- Any number of steps, with all that is handed over in them. -/
inductive Run : Process σ → List Request → Process σ → Prop
  | rest (p : Process σ) : Run p [] p
  | step {p q rest : Process σ} {sent later : List Request} :
    Step p sent q → Run q later rest → Run p (sent ++ later) rest

/-- Whatever a process hands over is among the requests `P`. -/
def SendsOnly (P : Request → Prop) : Process σ → Prop
  | done _ => True
  | get next => ∀ s, (next s).SendsOnly P
  | set _ next => next.SendsOnly P
  | ask r next => P r ∧ ∀ rows, (next rows).SendsOnly P
  | pause next => ∀ signal, (next signal).SendsOnly P
  | spawn body next => (∀ t, (body t).SendsOnly P) ∧ ∀ t, (next t).SendsOnly P
  | join _ next => ∀ outcome, (next outcome).SendsOnly P
  | cancel _ next => next.SendsOnly P

theorem SendsOnly.step {p q : Process σ} {sent : List Request} (h : p.SendsOnly P)
    (s : Step p sent q) : (∀ r ∈ sent, P r) ∧ q.SendsOnly P := by
  cases s with
  | get next s => exact ⟨by simp, h s⟩
  | set s next => exact ⟨by simp, h⟩
  | ask r next rows => exact ⟨by simpa using h.1, h.2 rows⟩
  | pause next signal => exact ⟨by simp, h signal⟩
  | spawn body next t => exact ⟨by simp, h.2 t⟩
  | begin body next t => exact ⟨by simp, h.1 t⟩
  | join t next outcome => exact ⟨by simp, h outcome⟩
  | cancel t next => exact ⟨by simp, h⟩

/-- Whatever a run hands over is among the requests that the process sends. -/
theorem SendsOnly.run {p rest : Process σ} {sent : List Request} (h : p.SendsOnly P)
    (steps : Run p sent rest) : (∀ r ∈ sent, P r) ∧ rest.SendsOnly P := by
  induction steps with
  | rest p => exact ⟨by simp, h⟩
  | step first _ ih =>
    have here := h.step first
    have later := ih here.2
    refine ⟨fun r hr => ?_, later.2⟩
    rcases List.mem_append.mp hr with now | after
    · exact here.1 r now
    · exact later.1 r after

/-- Two runners that agree on what a process sends answer it alike: it asks for nothing else. -/
theorem SendsOnly.answered_congr {p : Process σ} (h : p.SendsOnly P)
    {runner other : Request → Act σ (List Row)} (agree : ∀ r, P r → runner r = other r) :
    p.answered runner = p.answered other := by
  induction p with
  | done result => rfl
  | get next ih => exact congrArg Process.get (funext fun s => ih s (h s))
  | set s next ih => exact congrArg (Process.set s) (ih h)
  | ask r next ih =>
    simp only [answered, agree r h.1]
    exact congrArg (other r) (funext fun rows => ih rows (h.2 rows))
  | pause next ih => exact congrArg Process.pause (funext fun signal => ih signal (h signal))
  | spawn body next ihBody ihNext =>
    have begun := funext fun t => ihBody t (h.1 t)
    have after := funext fun t => ihNext t (h.2 t)
    simp only [answered, begun, after]
  | join t next ih => exact congrArg (Process.join t) (funext fun r => ih r (h r))
  | cancel t next ih => exact congrArg (Process.cancel t) (ih h)

end Process

namespace Act

variable {σ α β : Type} {P : Request → Prop}

instance : LawfulMonad (Act σ) := LawfulMonad.mk' (Act σ)
  (fun x => funext fun _ => congrArg x (funext fun r => by cases r <;> rfl))
  (fun _ _ => rfl)
  (fun x _ _ => funext fun _ => congrArg x (funext fun r => by cases r <;> rfl))

/-- Whatever an action hands over is among the requests `P`, if that holds of what comes after. -/
def SendsOnly (P : Request → Prop) (x : Act σ α) : Prop :=
  ∀ next, (∀ r, (next r).SendsOnly P) → (x next).SendsOnly P

namespace SendsOnly

theorem ofExcept (r : Except Error α) : (ofExcept r : Act σ α).SendsOnly P := fun _ h => h r

theorem pure (a : α) : (Pure.pure a : Act σ α).SendsOnly P := ofExcept (.ok a)

theorem fail (e : Error) : (fail e : Act σ α).SendsOnly P := ofExcept (.error e)

theorem bind {x : Act σ α} {f : α → Act σ β} (hx : x.SendsOnly P) (hf : ∀ a, (f a).SendsOnly P) :
    (x >>= f).SendsOnly P := fun next h => hx _ fun
  | .ok a => hf a next h
  | .error e => h (.error e)

theorem attempt {x : Act σ α} (hx : x.SendsOnly P) : x.attempt.SendsOnly P :=
  fun _ h => hx _ fun r => h (.ok r)

theorem always {x : Act σ α} {cleanup : Act σ Unit} (hx : x.SendsOnly P)
    (hc : cleanup.SendsOnly P) : (x.always cleanup).SendsOnly P :=
  hx.attempt.bind fun r => hc.bind fun _ => ofExcept r

theorem getsExcept (f : σ → Except Error α) : (getsExcept f).SendsOnly P := fun _ h s => h (f s)

theorem gets (f : σ → α) : (gets f).SendsOnly P := fun _ h s => h (.ok (f s))

theorem modifyGet (f : σ → α × σ) : (modifyGet f).SendsOnly P := fun _ h s => h (.ok (f s).1)

theorem modify (f : σ → σ) : (modify f).SendsOnly P := fun _ h _ => h (.ok ())

theorem ask {r : Request} (h : P r) : (ask r : Act σ (List Row)).SendsOnly P :=
  fun _ after => ⟨h, after⟩

theorem pause : (Act.pause : Act σ Unit).SendsOnly P := fun _ h => h

theorem spawn {body : TaskId → Act σ Value} (h : ∀ t, (body t).SendsOnly P) :
    (Act.spawn body).SendsOnly P :=
  fun _ after => ⟨fun t => h t _ fun _ => trivial, fun t => after (.ok t)⟩

theorem join (t : TaskId) : (Act.join t : Act σ Value).SendsOnly P := fun _ h => h

theorem cancel (t : TaskId) : (Act.cancel t : Act σ Unit).SendsOnly P := fun _ h => h (.ok ())

theorem forM {xs : List α} {f : α → Act σ PUnit} (h : ∀ a ∈ xs, (f a).SendsOnly P) :
    (xs.forM f).SendsOnly P := by
  induction xs with
  | nil => exact pure ()
  | cons a rest ih =>
    exact (h a (by simp)).bind fun _ => ih fun b hb => h b (by simp [hb])

end SendsOnly

/-- Whatever a whole run of an action hands over is among the requests that the action sends. -/
theorem SendsOnly.run {x : Act σ Value} (h : x.SendsOnly P) {sent : List Request}
    {rest : Process σ} (steps : Process.Run (x .done) sent rest) : ∀ r ∈ sent, P r :=
  ((h .done fun _ => trivial).run steps).1

end Act

end Relata
