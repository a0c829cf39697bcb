import Mathlib.Data.List.Forall2
import Relata.Process.Schedule
import Relata.Proofs.Process.Sends

/-!
What an action comes to. A process that waits for nothing but rows goes on by itself once each
statement has an answer; so an action on a state comes to a result and a later state, and to one
only. As the only task of a schedule it comes to the same.
-/

namespace Relata

namespace Process

variable {σ : Type}

/-- A process in a state goes on, its statements answered, until another one is left. -/
inductive Leads (answers : Request → Except Error (List Row)) :
    Process σ → σ → Process σ → σ → Prop
  | rest (p : Process σ) (s : σ) : Leads answers p s p s
  | get {next : σ → Process σ} {s s' : σ} {q : Process σ} :
    Leads answers (next s) s q s' → Leads answers (.get next) s q s'
  | set {next q : Process σ} {s t s' : σ} :
    Leads answers next t q s' → Leads answers (.set t next) s q s'
  | ask {r : Request} {next : Except Error (List Row) → Process σ} {s s' : σ} {q : Process σ} :
    Leads answers (next (answers r)) s q s' → Leads answers (.ask r next) s q s'

variable {answers : Request → Except Error (List Row)}

theorem Leads.trans {p q r : Process σ} {s t u : σ} (h : Leads answers p s q t)
    (h' : Leads answers q t r u) : Leads answers p s r u := by
  induction h with
  | rest p s => exact h'
  | get _ ih => exact .get (ih h')
  | set _ ih => exact .set (ih h')
  | ask _ ih => exact .ask (ih h')

/-- There is one end only. -/
theorem Leads.unique {p : Process σ} {s t u : σ} {a b : Except Error Value}
    (h : Leads answers p s (.done a) t) (h' : Leads answers p s (.done b) u) : a = b ∧ t = u := by
  generalize hd : Process.done a = last at h
  induction h with
  | rest p s =>
    subst hd
    cases h'
    exact ⟨rfl, rfl⟩
  | get _ ih =>
    cases h' with
    | get h' => exact ih h' hd
  | set _ ih =>
    cases h' with
    | set h' => exact ih h' hd
  | ask _ ih =>
    cases h' with
    | ask h' => exact ih h' hd

/-- Driven as a task, a process that comes to its end settles there. -/
theorem Leads.drive {p : Process σ} {s t : σ} {outcome : Except Error Value}
    (h : Leads answers p s (.done outcome) t) (task : TaskId) (schedule : Schedule σ)
    (here : schedule.state = s) :
    Schedule.drive task (p.answered fun r => Act.ofExcept (answers r)) schedule =
      Schedule.settle { schedule with state := t } task outcome := by
  generalize hd : Process.done outcome = last at h
  induction h generalizing schedule with
  | rest p s =>
    subst hd here
    rfl
  | get _ ih =>
    subst here
    exact ih schedule rfl hd
  | set _ ih => exact ih { schedule with state := _ } rfl hd
  | ask _ ih => exact ih schedule here hd

/-- As the only task of a schedule, a process comes to the same end. -/
theorem Leads.finish {p : Process σ} {s t : σ} {outcome : Except Error Value}
    (h : Leads answers p s (.done outcome) t) :
    Schedule.finish (p.answered fun r => Act.ofExcept (answers r)) s = (outcome, t) := by
  have first : (Schedule.start (p.answered fun r => Act.ofExcept (answers r)) s).step =
      Schedule.settle ⟨t, [], #[none], []⟩ 0 outcome := h.drive 0 ⟨s, [], #[none], []⟩ rfl
  have run : Schedule.runFor Schedule.turnLimit
      (Schedule.start (p.answered fun r => Act.ofExcept (answers r)) s) =
        Schedule.settle ⟨t, [], #[none], []⟩ 0 outcome := by
    rw [Schedule.turnLimit, Schedule.runFor, if_neg (by simp [Schedule.start]), first]
    rw [Schedule.runFor, if_pos (by simp [Schedule.settle])]
  simp [Schedule.finish, run, Schedule.settle]

end Process

namespace Act

variable {σ α β : Type} {answers : Request → Except Error (List Row)}

/-- An action on a state comes to a result and a later state. -/
def Comes (answers : Request → Except Error (List Row)) (x : Act σ α) (s : σ) (r : Except Error α)
    (s' : σ) : Prop :=
  ∀ next, Process.Leads answers (x next) s (next r) s'

/-- The state that an action leaves behind as the only task of a schedule. -/
def leaves (answers : Request → Except Error (List Row)) (x : Act σ α) (s : σ) : σ :=
  (Schedule.finish (((x >>= fun _ => pure .null) .done).answered fun r => ofExcept (answers r)) s).2

namespace Comes

/-- What an action comes to is what a schedule makes of it. -/
theorem leaves {x : Act σ α} {s t : σ} {r : Except Error α} (h : Comes answers x s r t) :
    leaves answers x s = t := by
  obtain ⟨outcome, ends⟩ : ∃ outcome,
      Process.Leads answers ((x >>= fun _ => Pure.pure .null) .done) s (.done outcome) t := by
    cases r with
    | ok a => exact ⟨.ok .null, h _⟩
    | error e => exact ⟨.error e, h _⟩
  rw [Act.leaves, ends.finish]

theorem ofExcept (r : Except Error α) (s : σ) : Comes answers (ofExcept r) s r s :=
  fun _ => .rest _ _

theorem pure (a : α) (s : σ) : Comes answers (Pure.pure a) s (.ok a) s := ofExcept (.ok a) s

theorem bind {x : Act σ α} {f : α → Act σ β} {s t u : σ} {a : α} {r : Except Error β}
    (hx : Comes answers x s (.ok a) t) (hf : Comes answers (f a) t r u) :
    Comes answers (x >>= f) s r u := fun next => (hx _).trans (hf next)

theorem bind_error {x : Act σ α} {s t : σ} {e : Error} (hx : Comes answers x s (.error e) t)
    (f : α → Act σ β) : Comes answers (x >>= f) s (.error e) t := fun _ => hx _

theorem attempt {x : Act σ α} {s t : σ} {r : Except Error α} (hx : Comes answers x s r t) :
    Comes answers x.attempt s (.ok r) t := fun _ => hx _

theorem getsExcept (f : σ → Except Error α) (s : σ) : Comes answers (getsExcept f) s (f s) s :=
  fun _ => .get (.rest _ _)

theorem gets (f : σ → α) (s : σ) : Comes answers (gets f) s (.ok (f s)) s :=
  fun _ => .get (.rest _ _)

theorem modifyGet (f : σ → α × σ) (s : σ) :
    Comes answers (modifyGet f) s (.ok (f s).1) (f s).2 := fun _ => .get (.set (.rest _ _))

theorem modify (f : σ → σ) (s : σ) : Comes answers (modify f) s (.ok ()) (f s) :=
  fun _ => .get (.set (.rest _ _))

theorem ask (r : Request) (s : σ) : Comes answers (ask r) s (answers r) s :=
  fun _ => .ask (.rest _ _)

/-- An action comes to one result and one state only: whoever goes on from it can tell results
apart. -/
theorem unique {x : Act σ α} {s t u : σ} {r r' : Except Error α} (h : Comes answers x s r t)
    (h' : Comes answers x s r' u) : r = r' ∧ t = u := by
  classical
  have apart := (h fun a => .done (if a = r then .ok .null else .error .badType)).unique
    (h' fun a => .done (if a = r then .ok .null else .error .badType))
  refine ⟨Classical.byContradiction fun other => ?_, apart.2⟩
  simp [Ne.symm other] at apart

theorem ofExcept_ok {r : Except Error α} {a : α} (h : r = .ok a) (s : σ) :
    Comes answers (Act.ofExcept r) s (.ok a) s := h ▸ ofExcept r s

theorem getsExcept_ok (f : σ → Except Error α) {s : σ} {a : α} (h : f s = .ok a) :
    Comes answers (Act.getsExcept f) s (.ok a) s := h ▸ getsExcept f s

theorem ask_ok {r : Request} {rows : List Row} (h : answers r = .ok rows) (s : σ) :
    Comes answers (Act.ask r) s (.ok rows) s := h ▸ ask r s

/-- What only finishes an action adds nothing to the state it leaves. -/
theorem bind_any {x : Act σ α} {f : α → Act σ β} {s t : σ} {r : Except Error α}
    (hx : Comes answers x s r t) (hf : ∀ a, ∃ r', Comes answers (f a) t r' t) :
    ∃ r', Comes answers (x >>= f) s r' t := by
  cases r with
  | error e => exact ⟨_, hx.bind_error f⟩
  | ok a =>
    obtain ⟨r', h⟩ := hf a
    exact ⟨r', hx.bind h⟩

/-- The state that is left, whatever the action behind comes to. -/
theorem bind_exists {x : Act σ α} {f : α → Act σ β} {s t u : σ} {a : α}
    (hx : Comes answers x s (.ok a) t) (hf : ∃ r, Comes answers (f a) t r u) :
    ∃ r, Comes answers (x >>= f) s r u :=
  hf.imp fun _ => hx.bind

/-- Reading something of the state for each item. -/
theorem mapM_same {xs : List α} {bs : List β} {f : α → Act σ β} {s : σ}
    (h : List.Forall₂ (fun a b => Comes answers (f a) s (.ok b) s) xs bs) :
    Comes answers (xs.mapM f) s (.ok bs) s := by
  induction h with
  | nil => exact pure _ _
  | cons here _ ih =>
    rw [List.mapM_cons]
    exact here.bind (ih.bind (pure _ _))

section Later

/-! States related by `R` to those before them. What holds of an item and its result at one state
is taken to hold at later ones. -/

variable {R : σ → σ → Prop} {Q : σ → α → β → Prop} (refl : ∀ s, R s s)
  (trans : ∀ {s t u}, R s t → R t u → R s u)
include refl trans

theorem mapM (later : ∀ {s t a b}, R s t → Q s a b → Q t a b) {xs : List α} {f : α → Act σ β}
    {first : σ}
    (step : ∀ a ∈ xs, ∀ s, R first s → ∃ b t, Comes answers (f a) s (.ok b) t ∧ R s t ∧ Q t a b) :
    ∃ bs t, Comes answers (xs.mapM f) first (.ok bs) t ∧ R first t ∧ List.Forall₂ (Q t) xs bs := by
  suffices ∀ s, R first s → ∃ bs t, Comes answers (xs.mapM f) s (.ok bs) t ∧ R s t ∧
      List.Forall₂ (Q t) xs bs from this first (refl first)
  induction xs with
  | nil => exact fun s _ => ⟨[], s, pure _ _, refl s, .nil⟩
  | cons a rest ih =>
    intro s hs
    obtain ⟨b, t, hb, ht, hq⟩ := step a (by simp) s hs
    obtain ⟨bs, u, hbs, hu, hqs⟩ := ih (fun c hc => step c (by simp [hc])) t (trans hs ht)
    refine ⟨b :: bs, u, ?_, trans ht hu, .cons (later hu hq) hqs⟩
    rw [List.mapM_cons]
    exact hb.bind (hbs.bind (pure _ _))

omit Q in
theorem forM {xs : List α} {f : α → Act σ PUnit} {first : σ}
    (step : ∀ a ∈ xs, ∀ s, R first s → ∃ t, Comes answers (f a) s (.ok ()) t ∧ R s t) :
    ∃ t, Comes answers (xs.forM f) first (.ok ()) t ∧ R first t := by
  suffices ∀ s, R first s → ∃ t, Comes answers (xs.forM f) s (.ok ()) t ∧ R s t from
    this first (refl first)
  induction xs with
  | nil => exact fun s _ => ⟨s, pure _ _, refl s⟩
  | cons a rest ih =>
    intro s hs
    obtain ⟨t, ha, ht⟩ := step a (by simp) s hs
    obtain ⟨u, hrest, hu⟩ := ih (fun c hc => step c (by simp [hc])) t (trans hs ht)
    exact ⟨u, ha.bind hrest, trans ht hu⟩

end Later

end Comes

end Act

end Relata
