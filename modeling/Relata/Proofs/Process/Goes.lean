import Relata.Proofs.Process.Beside

/-!
Runs with arbitrary answers. A process that waits for nothing but rows goes on with whatever each
statement is answered with, an error for one that fails or is given up, while others make the changes
that they may; the statements handed over and their answers are told in order. A piece of an action is
reached when the pieces before it have come to their results. If it fails then, so does the whole action,
with the same error and at once.
-/

namespace Relata

/-- Statements with what they are answered with, in order. -/
abbrev Dialogue := List (Request × Except Error (List Row))

variable {σ α β γ : Type} {rely : σ → σ → Prop}

namespace Process

/-- A process in a state goes on until another one is left. While it waits for an answer, others do what
they may. -/
inductive Goes (rely : σ → σ → Prop) : Process σ → σ → Dialogue → Process σ → σ → Prop
  | rest (p : Process σ) (s : σ) : Goes rely p s [] p s
  | get {next : σ → Process σ} {s t : σ} {sent : Dialogue} {q : Process σ} :
    Goes rely (next s) s sent q t → Goes rely (.get next) s sent q t
  | set {p q : Process σ} {s s' t : σ} {sent : Dialogue} :
    Goes rely p s' sent q t → Goes rely (.set s' p) s sent q t
  | ask {r : Request} {next : Except Error (List Row) → Process σ} {s s' t : σ}
    {rows : Except Error (List Row)} {sent : Dialogue} {q : Process σ} : rely s s' →
      Goes rely (next rows) s' sent q t → Goes rely (.ask r next) s ((r, rows) :: sent) q t

/-- What is read of a state leaves it alone. -/
theorem Goes.of_reads {p p' q : Process σ} {s t : σ} {sent : Dialogue} (h : Reads s p p')
    (goes : Goes rely p' s sent q t) : Goes rely p s sent q t := by
  induction h with
  | refl => exact goes
  | get _ ih => exact .get (ih goes)

theorem Goes.trans {p q q' : Process σ} {s t u : σ} {sent later : Dialogue}
    (h : Goes rely p s sent q t) (h' : Goes rely q t later q' u) :
    Goes rely p s (sent ++ later) q' u := by
  induction h with
  | rest p s => exact h'
  | get _ ih => exact .get (ih h')
  | set _ ih => exact .set (ih h')
  | ask others _ ih => exact .ask others (ih h')

/-- What a process comes to holds of a run of it that has ended. -/
theorem Alike.holds {pact : Pact σ} {Q : Except Error α → σ → Prop}
    {code : Except Error α → Except Error Value} (inj : Function.Injective code)
    {last' : Except Error α → Process σ} {p q : Process σ} {s t : σ} {sent : Dialogue}
    {r : Except Error α} (alike : Alike pact (fun r => .done (code r)) last' Q p q s)
    (others : ∀ {s t}, rely s t → pact.rely s t) (goes : Goes rely p s sent (.done (code r)) t) :
    Q r t := by
  induction alike generalizing sent with
  | @ends r' s came =>
    generalize ended : Process.done (code r') = p at goes
    cases goes with
    | rest =>
      obtain rfl := inj (Process.done.inj ended)
      exact came
    | _ => cases ended
  | left _ ih =>
    cases goes with
    | get goes => exact ih goes
  | right _ ih => exact ih goes
  | change _ _ ih =>
    cases goes with
    | set goes => exact ih goes
  | ask _ _ ih =>
    cases goes with
    | ask rely goes => exact ih _ _ (others rely) goes

end Process

namespace Act

/-- An action in a state comes to a result and a later state. -/
def Runs (rely : σ → σ → Prop) (x : Act σ α) (s : σ) (sent : Dialogue) (r : Except Error α) (t : σ) :
    Prop := ∀ next, Process.Goes rely (x next) s sent (next r) t

namespace Runs

variable {x : Act σ α} {s t u : σ} {sent later : Dialogue}

theorem ofExcept (r : Except Error α) (s : σ) : Runs rely (Act.ofExcept r) s [] r s :=
  fun next => .rest (next r) s

theorem bind {f : α → Act σ β} {a : α} {r : Except Error β} (h : Runs rely x s sent (.ok a) t)
    (hf : Runs rely (f a) t later r u) : Runs rely (x >>= f) s (sent ++ later) r u :=
  fun next => (h _).trans (hf next)

/-- An error is the end. -/
theorem bind_error {e : Error} (h : Runs rely x s sent (.error e) t) (f : α → Act σ β) :
    Runs rely (x >>= f) s sent (.error e) t := fun _ => h _

theorem attempt {r : Except Error α} (h : Runs rely x s sent r t) :
    Runs rely x.attempt s sent (.ok r) t := fun _ => h _

theorem getsExcept (f : σ → Except Error α) (s : σ) : Runs rely (Act.getsExcept f) s [] (f s) s :=
  fun _ => .get (.rest _ _)

theorem getsExcept_ok {f : σ → Except Error α} {a : α} (h : f s = .ok a) :
    Runs rely (Act.getsExcept f) s [] (.ok a) s := h ▸ .getsExcept f s

theorem gets (f : σ → α) (s : σ) : Runs rely (Act.gets f) s [] (.ok (f s)) s := fun _ => .get (.rest _ _)

theorem modifyGet (f : σ → α × σ) (s : σ) :
    Runs rely (Act.modifyGet f) s [] (.ok (f s).1) (f s).2 := fun _ => .get (.set (.rest _ _))

theorem ask (r : Request) {s s' : σ} (others : rely s s') (rows : Except Error (List Row)) :
    Runs rely (Act.ask r) s [(r, rows)] rows s' := fun _ => .ask others (.rest _ _)

theorem modify (f : σ → σ) (s : σ) : Runs rely (Act.modify f) s [] (.ok ()) (f s) :=
  fun _ => .get (.set (.rest _ _))

theorem of_reads {y : Act σ α} {r : Except Error α} (same : x.Reads y s) (h : Runs rely y s sent r t) :
    Runs rely x s sent r t := fun next => (h next).of_reads (same next)

/-- What is sent is sent by what follows. -/
theorem bind_silent {f : α → Act σ β} {a : α} {r : Except Error β} (h : Runs rely x s [] (.ok a) t)
    (hf : Runs rely (f a) t sent r u) : Runs rely (x >>= f) s sent r u := h.bind hf

/-- Nothing is sent by what follows. -/
theorem bind_quiet {f : α → Act σ β} {a : α} {r : Except Error β} (h : Runs rely x s sent (.ok a) t)
    (hf : Runs rely (f a) t [] r u) : Runs rely (x >>= f) s sent r u := by
  simpa only [List.append_nil] using h.bind hf

/-- What leaves the state alone for each item does so for all of them. -/
theorem mapM_quiet {f : α → Act σ β} {g : α → β} {s : σ} {xs : List α}
    (each : ∀ a ∈ xs, Runs rely (f a) s [] (.ok (g a)) s) : Runs rely (xs.mapM f) s [] (.ok (xs.map g)) s := by
  induction xs with
  | nil => exact .ofExcept (.ok []) s
  | cons a rest ih =>
    rw [List.mapM_cons]
    have others := ih fun b there => each b (.tail _ there)
    exact (each a (.head _)).bind_silent (others.bind_silent (.ofExcept (.ok (g a :: rest.map g)) s))

/-- What follows an action only gives another result in place of its own. -/
theorem bind_pure {f : α → Act σ β} {g : α → β} {r : Except Error α} (h : Runs rely x s sent r t)
    (last : ∀ a, f a = Pure.pure (g a)) : Runs rely (x >>= f) s sent (r.map g) t := by
  cases r with
  | error e => exact h.bind_error f
  | ok a =>
    have rest : Runs rely (f a) t [] (.ok (g a)) t := last a ▸ .ofExcept (.ok (g a)) t
    simpa only [List.append_nil, Except.map] using h.bind rest

end Runs

/-- Results are told apart by what is made of them, if values are. -/
theorem injective_map {f : α → β} (inj : Function.Injective f) :
    Function.Injective (Except.map f : Except Error α → Except Error β) := by
  intro a b same
  cases a with
  | error e => cases b <;> simp_all [Except.map]
  | ok a =>
    cases b with
    | error e => cases same
    | ok b => exact congrArg Except.ok (inj (Except.ok.inj same))

/-- What an action comes to holds of each run of it. -/
theorem Meets.holds {pact : Pact σ} {x : Act σ α} {Q : Except Error α → σ → Prop} {s t : σ}
    (h : x.Ends pact s Q) {code : Except Error α → Except Error Value}
    (inj : Function.Injective code) (others : ∀ {s t}, rely s t → pact.rely s t)
    {sent : Dialogue} {r : Except Error α} (runs : Runs rely x s sent r t) : Q r t :=
  (h _ fun r => .done (code r)).holds inj others (runs _)

/-- An action has come to a piece of it: what comes before the piece has come to its results. -/
inductive Reaches (rely : σ → σ → Prop) {β : Type} (y : Act σ β) (t : σ) :
    {α : Type} → Act σ α → σ → Dialogue → Prop
  | here : Reaches rely y t y t []
  | into {α γ : Type} {x : Act σ γ} {f : γ → Act σ α} {s : σ} {sent : Dialogue} :
    Reaches rely y t x s sent → Reaches rely y t (x >>= f) s sent
  | after {α γ : Type} {x : Act σ γ} {f : γ → Act σ α} {a : γ} {s s' : σ} {sent later : Dialogue} :
    Runs rely x s sent (.ok a) s' → Reaches rely y t (f a) s' later →
      Reaches rely y t (x >>= f) s (sent ++ later)
  | reads {α : Type} {x z : Act σ α} {s : σ} {sent : Dialogue} : x.Reads z s →
      Reaches rely y t z s sent → Reaches rely y t x s sent

/-- An error of the piece that has been reached is one of the whole action. -/
theorem Reaches.fails {x : Act σ α} {y : Act σ β} {s t u : σ} {sent later : Dialogue} {e : Error}
    (h : Reaches rely y t x s sent) (fails : Runs rely y t later (.error e) u) :
    Runs rely x s (sent ++ later) (.error e) u := by
  induction h with
  | here => exact fails
  | into _ ih => exact ih.bind_error _
  | after runs _ ih =>
    rw [List.append_assoc]
    exact runs.bind ih
  | reads same _ ih => exact fun next => .of_reads (same next) (ih next)

end Act

/-- No run to an end sends more statements, whatever the answers and whatever the others do. -/
def Process.SendsAtMost (p : Process σ) (n : Nat) : Prop :=
  ∀ (rely : σ → σ → Prop) (s : σ) sent o t, Goes rely p s sent (.done o) t → sent.length ≤ n

/-- An action sends no more statements before it hands on. -/
def Act.SendsAtMost (x : Act σ α) (n : Nat) : Prop :=
  ∀ next m, (∀ r, (next r).SendsAtMost m) → (x next).SendsAtMost (n + m)

namespace Act.SendsAtMost

variable {x : Act σ α}

theorem mono {m n : Nat} (h : x.SendsAtMost m) (le : m ≤ n) : x.SendsAtMost n :=
  fun next k after rely s sent o t goes =>
    Nat.le_trans (h next k after rely s sent o t goes) (Nat.add_le_add_right le k)

theorem ofExcept (r : Except Error α) : (Act.ofExcept r : Act σ α).SendsAtMost 0 :=
  fun _ m after => (Nat.zero_add m).symm ▸ after r

theorem pure (a : α) : (Pure.pure a : Act σ α).SendsAtMost 0 := ofExcept (.ok a)

theorem getsExcept (f : σ → Except Error α) : (Act.getsExcept f).SendsAtMost 0 := by
  intro next m after rely s sent o t goes
  cases goes with
  | get goes => simpa using after _ rely _ _ _ _ goes

theorem gets (f : σ → α) : (Act.gets f).SendsAtMost 0 := getsExcept fun s => .ok (f s)

theorem modifyGet (f : σ → α × σ) : (Act.modifyGet f).SendsAtMost 0 := by
  intro next m after rely s sent o t goes
  cases goes with
  | get goes => cases goes with
    | set goes => simpa using after _ rely _ _ _ _ goes

theorem modify (f : σ → σ) : (Act.modify f).SendsAtMost 0 := modifyGet fun s => ((), f s)

theorem ask (r : Request) : (Act.ask r : Act σ (List Row)).SendsAtMost 1 := by
  intro next m after rely s sent o t goes
  cases goes with
  | ask _ goes =>
    have later := after _ rely _ _ _ _ goes
    simp only [List.length_cons]
    omega

theorem bind {f : α → Act σ β} {m n : Nat} (hx : x.SendsAtMost m) (hf : ∀ a, (f a).SendsAtMost n) :
    (x >>= f).SendsAtMost (m + n) := by
  intro next k after
  rw [Nat.add_assoc]
  refine hx _ _ fun r => ?_
  cases r with
  | ok a => exact hf a next k after
  | error e =>
    exact fun rely s sent o t goes =>
      Nat.le_trans (after (.error e) rely s sent o t goes) (Nat.le_add_left k n)

/-- What sends nothing adds nothing. -/
theorem silent_bind {f : α → Act σ β} {n : Nat} (hx : x.SendsAtMost 0) (hf : ∀ a, (f a).SendsAtMost n) :
    (x >>= f).SendsAtMost n := (Nat.zero_add n) ▸ hx.bind hf

theorem discard {n : Nat} (hx : x.SendsAtMost n) : (discard x).SendsAtMost n :=
  (Nat.add_zero n) ▸ hx.bind fun _ => pure ()

theorem mapM {xs : List α} {f : α → Act σ β} (h : ∀ a, (f a).SendsAtMost 0) : (xs.mapM f).SendsAtMost 0 := by
  induction xs with
  | nil => exact pure []
  | cons a rest ih =>
    rw [List.mapM_cons]
    exact (h a).silent_bind fun b => ih.silent_bind fun bs => pure (b :: bs)

theorem forM {xs : List α} {f : α → Act σ PUnit} (h : ∀ a, (f a).SendsAtMost 0) :
    (xs.forM f).SendsAtMost 0 := by
  induction xs with
  | nil => exact pure ()
  | cons a rest ih => exact (h a).silent_bind fun _ => ih

theorem length_le {n : Nat} (h : x.SendsAtMost n) {rely : σ → σ → Prop} {s t : σ} {sent : Dialogue}
    {r : Except Error α} (runs : Runs rely x s sent r t) : sent.length ≤ n := by
  refine h (fun _ => .done (.ok .null)) 0 (fun r rely s sent o t goes => ?_) rely s sent _ t (runs _)
  cases goes
  exact Nat.le_refl 0

end Act.SendsAtMost

end Relata
