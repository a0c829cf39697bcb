import Mathlib.Logic.Relation
import Relata.Proofs.Process.Beside

/-!
Tasks that abide by a law. The law says which changes may be made, one at a time. While a task waits,
for rows, for its turn or for another task, any number of such changes may be made by others; so it may
go by what it has found before only if no such change undoes it. Any number of tasks that abide by the
law, with all tasks that they start, take the state through a course of such changes: whichever turns
are taken, whenever further tasks are launched, and whoever is cancelled.
-/

namespace Relata

open Relation (ReflTransGen)

variable {σ α : Type} {law : σ → σ → Prop}

namespace Process

/-- A process that abides by a law from a state on. -/
inductive Abides (law : σ → σ → Prop) : Process σ → σ → Prop
  | done (r : Except Error Value) (s : σ) : Abides law (.done r) s
  | get {next : σ → Process σ} {s : σ} : Abides law (next s) s → Abides law (.get next) s
  | set {p : Process σ} {s t : σ} : law s t → Abides law p t → Abides law (.set t p) s
  | ask {r : Request} {next : Except Error (List Row) → Process σ} {s : σ} :
    (∀ rows t, ReflTransGen law s t → Abides law (next rows) t) → Abides law (.ask r next) s
  | pause {next : Except Error Unit → Process σ} {s : σ} :
    (∀ signal t, ReflTransGen law s t → Abides law (next signal) t) → Abides law (.pause next) s
  | spawn {body next : TaskId → Process σ} {s : σ} :
    (∀ u t, ReflTransGen law s t → Abides law (body u) t) → (∀ u, Abides law (next u) s) →
      Abides law (.spawn body next) s
  | join {u : TaskId} {next : Except Error Value → Process σ} {s : σ} :
    (∀ outcome t, ReflTransGen law s t → Abides law (next outcome) t) → Abides law (.join u next) s
  | cancel {u : TaskId} {p : Process σ} {s : σ} : Abides law p s → Abides law (.cancel u p) s

/-- Those who keep to a law on either side of a pact. -/
abbrev byLaw (law : σ → σ → Prop) : Pact σ := ⟨law, ReflTransGen law, fun _ => True⟩

/-- What is done aside by law, before a process that abides by it. -/
theorem Aside.abides {last : Except Error α → Process σ} {p : Process σ}
    (aside : Aside (byLaw law) last p) {s : σ}
    (next : ∀ r t, ReflTransGen law s t → Abides law (last r) t) : Abides law p s := by
  induction aside generalizing s with
  | ends r => exact next r s .refl
  | get _ ih => exact .get (ih s next)
  | change allowed _ ih =>
    exact .get (.set (allowed s).2 (ih s fun r t later => next r t (.head (allowed s).2 later)))
  | pause _ ih =>
    exact .pause fun signal t later => ih signal fun r u further => next r u (later.trans further)

end Process

open Process (begin)

/-- A turn that lets a task go on by law, whatever it is told. -/
def Turn.Abides (law : σ → σ → Prop) (s : σ) : Turn σ → Prop
  | .run _ _ next => ∀ signal t, ReflTransGen law s t → (next signal).Abides law t
  | .relay w _ => ∀ outcome t, ReflTransGen law s t → (w.next outcome).Abides law t

namespace Schedule

theorem state_cancel (s : Schedule σ) (u : TaskId) : (s.cancel u).state = s.state := by
  obtain ⟨_, _, _, _, eq⟩ | ⟨_, _, _, _, eq⟩ | eq := cancel_cases s u <;> rw [eq] <;> rfl

/-- Every task abides by the law wherever it stands. -/
structure Abides (law : σ → σ → Prop) (s : Schedule σ) : Prop where
  queue : ∀ turn ∈ s.queue, turn.Abides law s.state
  waiting : ∀ e ∈ s.waiting, ∀ outcome t, ReflTransGen law s.state t →
    (e.2.next outcome).Abides law t

theorem abides_wake {w : Waiter σ} {s : σ}
    (h : ∀ outcome t, ReflTransGen law s t → (w.next outcome).Abides law t)
    (outcome : Except Error Value) : (wake w outcome).Abides law s := by
  intro signal t later
  cases signal with
  | ok _ => exact h outcome t later
  | error e => exact h (.error e) t later

namespace Abides

variable {s : Schedule σ} {turn : Turn σ}

theorem enqueue (h : s.Abides law) (goes : turn.Abides law s.state) : (s.enqueue turn).Abides law where
  queue other there := by
    rcases List.mem_append.mp there with old | new
    · exact h.queue other old
    · exact List.mem_singleton.mp new ▸ goes
  waiting := h.waiting

theorem settle (h : s.Abides law) (u : TaskId) (outcome : Except Error Value) :
    (s.settle u outcome).Abides law where
  queue turn there := by
    rcases List.mem_append.mp there with old | told
    · exact h.queue turn old
    · obtain ⟨e, waited, rfl⟩ := List.mem_map.mp told
      exact h.waiting e (List.mem_filter.mp waited).1
  waiting e there := h.waiting e (List.mem_filter.mp there).1

theorem changed (h : s.Abides law) {t : σ} (allowed : law s.state t) :
    Abides law { s with state := t } where
  queue turn there := by
    have goes := h.queue turn there
    cases turn with
    | run u signal next => exact fun told v later => goes told v (.head allowed later)
    | relay w outcome => exact fun told v later => goes told v (.head allowed later)
  waiting e there outcome v later := h.waiting e there outcome v (.head allowed later)

/-- Whoever is cancelled goes on by law. -/
theorem cancel (h : s.Abides law) (u : TaskId) : (s.cancel u).Abides law := by
  obtain ⟨other, w, there, -, eq⟩ | ⟨w, outcome, there, -, eq⟩ | eq := cancel_cases s u <;> rw [eq]
  · refine enqueue ⟨h.queue, fun e kept => ?_⟩ (abides_wake (h.waiting _ there) _)
    exact h.waiting e (List.mem_filter.mp kept).1
  · refine enqueue ⟨fun turn kept => ?_, h.waiting⟩ (abides_wake (h.queue _ there) _)
    exact h.queue turn (List.mem_filter.mp kept).1
  · refine ⟨fun turn there => ?_, h.waiting⟩
    obtain ⟨was, stood, rfl⟩ := List.mem_map.mp there
    have goes := h.queue was stood
    cases was with
    | relay w outcome => exact goes
    | run v signal next =>
      simp only [struck]
      split <;> exact goes

end Abides

/-- The states that there have been, the last one first, once a process has gone on until it waits
or ends. -/
def passed : Process σ → Schedule σ → List σ → List σ
  | .done _, _, past => past
  | .get next, s, past => passed (next s.state) s past
  | .set t p, s, past => passed p { s with state := t } (t :: past)
  | .ask _ next, s, past => passed (next (.error .notImplemented)) s past
  | .pause _, _, past => past
  | .spawn body next, s, past =>
    let new := s.outcomes.size
    passed (next new) ({ s with outcomes := s.outcomes.push none }.enqueue
      (.run new (.ok ()) (begin (body new)))) past
  | .join other next, s, past =>
    match (s.outcomes[other]?).join with
    | some outcome => passed (next outcome) s past
    | none => past
  | .cancel other p, s, past => passed p (s.cancel other) past

/-- The states that there have been after a turn. -/
def passedBy (s : Schedule σ) (past : List σ) : Turn σ → List σ
  | .run _ signal next => passed (next signal) s past
  | .relay _ _ => past

/-- A course of states up to the present one: each comes of the one before it by a change that the
law allows. The last one stands first. -/
inductive Course (law : σ → σ → Prop) (start : σ) : List σ → σ → Prop
  | start : Course law start [start] start
  | change {past : List σ} {now next : σ} : Course law start past now → law now next →
    Course law start (next :: past) next

theorem Course.mem {start now : σ} {past : List σ} (h : Course law start past now) : now ∈ past := by
  cases h <;> exact .head _

theorem Course.reached {start now : σ} {past : List σ} (h : Course law start past now) :
    ReflTransGen law start now := by
  induction h with
  | start => exact .refl
  | change _ allowed ih => exact ih.tail allowed

/-- The course up to a moment that there has been. -/
theorem Course.earlier {start now then_ : σ} {past before : List σ} (h : Course law start past now)
    (part : then_ :: before <:+ past) : Course law start (then_ :: before) then_ := by
  induction h with
  | start =>
    obtain whole | part := List.suffix_cons_iff.mp part
    · obtain ⟨rfl, rfl⟩ := List.cons.inj whole
      exact .start
    · simp at part
  | change course allowed ih =>
    obtain whole | part := List.suffix_cons_iff.mp part
    · obtain ⟨rfl, rfl⟩ := List.cons.inj whole
      exact course.change allowed
    · exact ih part

/-- A turn of a process that abides by the law: by induction on the process, with the changes that it
makes before it waits or ends. -/
theorem Abides.drive {s : Schedule σ} (others : s.Abides law) {start : σ} {past : List σ}
    (course : Course law start past s.state) {p : Process σ} (h : p.Abides law s.state)
    (task : TaskId) : (Schedule.drive task p s).Abides law ∧
      Course law start (passed p s past) (Schedule.drive task p s).state := by
  generalize now : s.state = state at h
  induction h generalizing s past with
  | done r _ => exact ⟨others.settle task r, course⟩
  | get _ ih =>
    subst now
    exact ih others course rfl
  | @set p _ t allowed _ ih =>
    subst now
    exact ih (s := { s with state := t }) (others.changed allowed) (course.change allowed) rfl
  | ask _ ih =>
    subst now
    exact ih _ _ .refl others course rfl
  | pause goes _ =>
    subst now
    exact ⟨others.enqueue goes, course⟩
  | @spawn body next _ begins _ _ ih =>
    subst now
    have begun : (Turn.run s.outcomes.size (.ok ()) (begin (body s.outcomes.size))).Abides law
        s.state := by
      intro signal t later
      cases signal with
      | ok _ => exact begins _ t later
      | error e => exact .done _ t
    rw [Schedule.drive_spawn]
    refine ih s.outcomes.size ?_ course rfl
    exact Abides.enqueue ⟨others.queue, others.waiting⟩ begun
  | @join u next _ goes ih =>
    subst now
    cases settled : (s.outcomes[u]?).join with
    | some outcome =>
      simp only [Schedule.drive, passed, settled]
      exact ih _ _ .refl others course rfl
    | none =>
      simp only [Schedule.drive, passed, settled]
      refine ⟨⟨others.queue, fun e there => ?_⟩, course⟩
      rcases List.mem_append.mp there with old | new
      · exact others.waiting e old
      · obtain rfl := List.mem_singleton.mp new
        exact goes
  | @cancel u p _ _ ih =>
    exact ih (s := s.cancel u) (others.cancel u) (s.state_cancel u ▸ course)
      ((s.state_cancel u).trans now)

/-- What comes of a state when tasks are launched at any time, any turns are taken, and any task may be
cancelled, with the states that there have been. -/
inductive Arises (launches : Process σ → Prop) (start : σ) : List σ → Schedule σ → Prop
  | idle : Arises launches start [start] ⟨start, [], #[], []⟩
  | launch {past : List σ} {s : Schedule σ} {p : Process σ} : Arises launches start past s →
    launches p → Arises launches start (passed p { s with outcomes := s.outcomes.push none } past)
      (drive s.outcomes.size p { s with outcomes := s.outcomes.push none })
  | turn {past : List σ} {s : Schedule σ} {before after : List (Turn σ)} {turn : Turn σ} :
    Arises launches start past s → s.queue = before ++ turn :: after →
      Arises launches start (passedBy { s with queue := before ++ after } past turn)
        (play turn { s with queue := before ++ after })
  | cancel {past : List σ} {s : Schedule σ} (u : TaskId) : Arises launches start past s →
    Arises launches start past (s.cancel u)

/-- Each task that has not settled stands in one place. -/
theorem Arises.placed {launches : Process σ → Prop} {start : σ} {past : List σ} {s : Schedule σ}
    (arises : Arises launches start past s) : s.Placed [] := by
  induction arises with
  | idle => exact ⟨List.nodup_nil, fun t => by simp [standing, Open], List.forall_mem_nil _⟩
  | launch _ _ ih => exact ih.push.drive _
  | turn _ taken ih => exact (ih.taken taken).play
  | cancel u _ ih => exact ih.cancel u

/-- If all that is launched abides by the law in the states that may come about, the states are a course
of changes that it allows. -/
theorem Arises.by_law {launches : Process σ → Prop} {start : σ} {past : List σ} {s : Schedule σ}
    (arises : Arises launches start past s)
    (abides : ∀ p, launches p → ∀ t, ReflTransGen law start t → p.Abides law t) :
    s.Abides law ∧ Course law start past s.state := by
  induction arises with
  | idle => exact ⟨⟨List.forall_mem_nil _, List.forall_mem_nil _⟩, .start⟩
  | @launch past s p _ launched ih =>
    obtain ⟨others, course⟩ := ih
    have added : Abides law { s with outcomes := s.outcomes.push none } :=
      ⟨others.queue, others.waiting⟩
    exact added.drive course (abides p launched _ course.reached) s.outcomes.size
  | @turn past s before after turn _ taken ih =>
    obtain ⟨others, course⟩ := ih
    have goes : turn.Abides law s.state := others.queue turn (by simp [taken])
    have rest : Abides law { s with queue := before ++ after } := by
      refine ⟨fun other there => others.queue other ?_, others.waiting⟩
      rw [taken]
      rcases List.mem_append.mp there with old | new
      · exact List.mem_append_left _ old
      · exact List.mem_append_right _ (.tail _ new)
    cases turn with
    | run u signal next => exact rest.drive course (goes signal s.state .refl) u
    | relay w outcome => exact ⟨rest.enqueue (abides_wake goes outcome), course⟩
  | @cancel past s u _ ih => exact ⟨ih.1.cancel u, s.state_cancel u ▸ ih.2⟩

end Schedule

end Relata
