import Mathlib.Data.List.Nodup
import Relata.Process.Schedule

/-!
Turns taken in any order. A scheduler may let any turn of its queue be the next one. What holds
whichever it takes: a task that has not settled stands in the queue or waits for another task, in
one place only; a turn of one task leaves the places of the others, and an outcome that there is
stays; a task that waits for another one is told its outcome and no other.
-/

namespace Relata

variable {σ : Type}

/-- The task that a turn belongs to. -/
def Turn.task : Turn σ → TaskId
  | .run t _ _ => t
  | .relay w _ => w.task

namespace Schedule

/-- Takes a turn that stands in the queue no more. -/
def play : Turn σ → Schedule σ → Schedule σ
  | .run t signal next, s => drive t (next signal) s
  | .relay w outcome, s => s.enqueue (wake w outcome)

/-- Some turn of the queue is taken, whichever it is. -/
def Takes (s : Schedule σ) (turn : Turn σ) (s' : Schedule σ) : Prop :=
  ∃ before after, s.queue = before ++ turn :: after ∧
    s' = play turn { s with queue := before ++ after }

/-- A scheduler that takes the turns in their order takes some turn. -/
theorem takes_step {s : Schedule σ} {turn : Turn σ} {rest : List (Turn σ)}
    (h : s.queue = turn :: rest) : s.Takes turn s.step := by
  refine ⟨[], rest, h, ?_⟩
  cases turn <;> simp [step, h, play]

/-- A task that has not settled. -/
def Open (s : Schedule σ) (t : TaskId) : Prop := s.outcomes[t]? = some none

def Settled (s : Schedule σ) (t : TaskId) (outcome : Except Error Value) : Prop :=
  s.outcomes[t]? = some (some outcome)

/-- The tasks in the queue and those that wait. -/
def standing (s : Schedule σ) : List TaskId :=
  s.queue.map Turn.task ++ s.waiting.map (·.2.task)

theorem mem_standing_of_queue {s : Schedule σ} {turn : Turn σ} (h : turn ∈ s.queue) :
    turn.task ∈ s.standing := List.mem_append_left _ (List.mem_map_of_mem h)

theorem mem_standing_of_waiting {s : Schedule σ} {e : TaskId × Waiter σ} (h : e ∈ s.waiting) :
    e.2.task ∈ s.standing := List.mem_append_right _ (List.mem_map.mpr ⟨e, h, rfl⟩)

/-- Each task that has not settled stands in one place, or runs; and none waits for a task that has
settled. -/
structure Placed (running : List TaskId) (s : Schedule σ) : Prop where
  once : (running ++ s.standing).Nodup
  mem_iff : ∀ t, t ∈ running ++ s.standing ↔ s.Open t
  awaited : ∀ e ∈ s.waiting, (s.outcomes[e.1]?).join = none

/-- A task waits for the outcome of another one, or is about to be told it. -/
def Awaits (s : Schedule σ) (t other : TaskId) (next : Except Error Value → Process σ) : Prop :=
  (other, ⟨t, next⟩) ∈ s.waiting ∨
    ∃ outcome, s.Settled other outcome ∧
      (.relay ⟨t, next⟩ outcome ∈ s.queue ∨ wake ⟨t, next⟩ outcome ∈ s.queue)

/-- What a turn of the task `t` leaves of the others: their places and all outcomes. Those that wait
for `t` are told its outcome if it settles. -/
structure Spares (t : TaskId) (s s' : Schedule σ) : Prop where
  queue : ∀ turn ∈ s.queue, turn ∈ s'.queue
  waiting : ∀ e ∈ s.waiting, e ∈ s'.waiting ∨
    ∃ outcome, s'.Settled e.1 outcome ∧ .relay e.2 outcome ∈ s'.queue
  settled : ∀ {other outcome}, s.Settled other outcome → s'.Settled other outcome
  stays : ∀ {other}, other ≠ t → s.Open other → s'.Open other
  size : s.outcomes.size ≤ s'.outcomes.size

@[simp] theorem wake_task (w : Waiter σ) (outcome : Except Error Value) :
    (wake w outcome).task = w.task := rfl

theorem Open.lt {s : Schedule σ} {t : TaskId} (h : s.Open t) : t < s.outcomes.size :=
  (Array.getElem?_eq_some_iff.mp h).1

theorem Settled.lt {s : Schedule σ} {t : TaskId} {outcome : Except Error Value}
    (h : s.Settled t outcome) : t < s.outcomes.size := (Array.getElem?_eq_some_iff.mp h).1

theorem Settled.not_open {s : Schedule σ} {t : TaskId} {outcome : Except Error Value}
    (h : s.Settled t outcome) : ¬ s.Open t := by
  intro isOpen
  cases h.symm.trans isOpen

theorem open_or_settled {s : Schedule σ} {t : TaskId} (h : t < s.outcomes.size) :
    s.Open t ∨ ∃ outcome, s.Settled t outcome := by
  unfold Open Settled
  rw [Array.getElem?_eq_getElem h]
  cases s.outcomes[t] with
  | none => exact .inl rfl
  | some outcome => exact .inr ⟨outcome, rfl⟩

theorem Settled.unique {s : Schedule σ} {t : TaskId} {a b : Except Error Value}
    (h : s.Settled t a) (h' : s.Settled t b) : a = b := by
  cases h.symm.trans h'
  rfl

theorem settled_settle {s : Schedule σ} {t : TaskId} (h : s.Open t) (outcome : Except Error Value) :
    (s.settle t outcome).Settled t outcome := by
  simp [Settled, settle, h.lt]

/-! Where the tasks stand after each of the changes that a schedule can undergo. -/

theorem standing_enqueue (s : Schedule σ) (turn : Turn σ) :
    (s.enqueue turn).standing.Perm (turn.task :: s.standing) := by
  simp [standing, enqueue, List.append_assoc]

theorem standing_settle (s : Schedule σ) (t : TaskId) (outcome : Except Error Value) :
    (s.settle t outcome).standing.Perm s.standing := by
  have parted := (List.filter_append_perm (fun e : TaskId × Waiter σ => e.1 == t) s.waiting).map
    (·.2.task)
  have told : ((s.waiting.filter (·.1 == t)).map fun e => Turn.relay e.2 outcome).map Turn.task =
      (s.waiting.filter (·.1 == t)).map (·.2.task) := by
    simp [Turn.task, Function.comp_def]
  rw [List.map_append] at parted
  simp only [standing, settle, List.map_append, told, List.append_assoc]
  exact parted.append_left _

theorem Placed.of_perm {s s' : Schedule σ} {running running' : List TaskId}
    (h : s.Placed running) (perm : (running' ++ s'.standing).Perm (running ++ s.standing))
    (outcomes : s'.outcomes = s.outcomes)
    (awaited : ∀ e ∈ s'.waiting, e ∈ s.waiting ∨ (s'.outcomes[e.1]?).join = none) :
    s'.Placed running' where
  once := perm.nodup_iff.mpr h.once
  mem_iff t := by rw [perm.mem_iff, h.mem_iff, Open, Open, outcomes]
  awaited e he := (awaited e he).elim (fun there => outcomes ▸ h.awaited e there) id

/-- The task whose turn is taken runs. -/
theorem Placed.taken {s : Schedule σ} {before after : List (Turn σ)} {turn : Turn σ}
    (h : s.Placed []) (taken : s.queue = before ++ turn :: after) :
    Placed [turn.task] { s with queue := before ++ after } := by
  refine h.of_perm ?_ rfl fun _ there => .inl there
  simp only [standing, taken, List.map_append, List.map_cons, List.nil_append, List.append_assoc,
    List.cons_append]
  exact List.perm_middle.symm

theorem Placed.is_open {s : Schedule σ} {t : TaskId} (h : s.Placed [t]) : s.Open t :=
  (h.mem_iff t).mp (by simp)

theorem Placed.enqueue {s : Schedule σ} {running : List TaskId} {turn : Turn σ}
    (h : s.Placed (turn.task :: running)) : (s.enqueue turn).Placed running :=
  h.of_perm (((standing_enqueue s turn).append_left running).trans List.perm_middle) rfl
    fun _ there => .inl there

theorem Placed.settle {s : Schedule σ} {t : TaskId} (h : s.Placed [t])
    (outcome : Except Error Value) : (s.settle t outcome).Placed [] := by
  have isOpen := h.is_open
  have gone : t ∉ s.standing := by simpa using (List.nodup_cons.mp h.once).1
  have perm := standing_settle s t outcome
  refine ⟨?_, fun other => ?_, fun e he => ?_⟩
  · exact perm.nodup_iff.mpr (List.nodup_cons.mp h.once).2
  · have there := h.mem_iff other
    rw [List.nil_append, perm.mem_iff]
    simp only [Open, Schedule.settle, Array.getElem?_setIfInBounds]
    by_cases same : t = other
    · subst same
      simp [gone, isOpen.lt]
    · simpa [same, Ne.symm same, Open] using there
  · simp only [Schedule.settle, List.mem_filter, bne_iff_ne] at he ⊢
    rw [Array.getElem?_setIfInBounds, if_neg (Ne.symm he.2)]
    exact h.awaited e he.1

theorem Placed.push {s : Schedule σ} {running : List TaskId} (h : s.Placed running) :
    Placed (s.outcomes.size :: running) { s with outcomes := s.outcomes.push none } := by
  have fresh : s.outcomes.size ∉ running ++ s.standing := fun there =>
    absurd ((h.mem_iff _).mp there).lt (Nat.lt_irrefl _)
  refine ⟨List.nodup_cons.mpr ⟨fresh, h.once⟩, fun t => ?_, fun e he => ?_⟩
  · have there := h.mem_iff t
    simp only [Open] at there
    simp only [List.cons_append, List.mem_cons, Open, Array.getElem?_push]
    change t = s.outcomes.size ∨ t ∈ running ++ s.standing ↔ _
    rw [there]
    by_cases same : t = s.outcomes.size <;> simp [same]
  · have before := h.awaited e he
    simp only [Array.getElem?_push]
    split
    · rfl
    · exact before

theorem Placed.join {s : Schedule σ} {t other : TaskId} {running : List TaskId}
    {next : Except Error Value → Process σ} (h : s.Placed (t :: running))
    (waits : (s.outcomes[other]?).join = none) :
    Placed running { s with waiting := s.waiting ++ [(other, ⟨t, next⟩)] } := by
  refine h.of_perm ?_ rfl fun e he => ?_
  · have perm : (standing { s with waiting := s.waiting ++ [(other, ⟨t, next⟩)] }).Perm
        (t :: s.standing) := by
      simp [standing, ← List.append_assoc]
    exact (perm.append_left running).trans List.perm_middle
  · rcases List.mem_append.mp he with there | there
    · exact .inl there
    · cases List.mem_singleton.mp there
      exact .inr waits

/-- The one item of a list that a key picks out may be set apart. -/
theorem perm_cons_filter_ne {α β : Type} [DecidableEq β] {f : α → β} {l : List α} {a : α}
    (once : (l.map f).Nodup) (ha : a ∈ l) : l.Perm (a :: l.filter (f · != f a)) := by
  induction l with
  | nil => cases ha
  | cons b rest ih =>
    rw [List.map_cons, List.nodup_cons] at once
    rcases List.mem_cons.mp ha with rfl | later
    · have others : rest.filter (f · != f a) = rest := List.filter_eq_self.mpr fun c hc => by
        simpa using fun same : f c = f a => once.1 (same ▸ List.mem_map_of_mem hc)
      simp [others]
    · have apart : f b ≠ f a := fun same => once.1 (same ▸ List.mem_map_of_mem later)
      rw [List.filter_cons_of_pos (by simpa using apart)]
      exact ((ih once.2 later).cons b).trans (.swap _ _ _)

/-! Cancelling a task touches that task alone: it leaves the place where it stands for one in the
queue, and is told of the cancellation there. -/

/-- What cancelling a task leaves: the state, all outcomes, and the places of the other tasks. -/
structure Cancels (t : TaskId) (s s' : Schedule σ) : Prop where
  state : s'.state = s.state
  outcomes : s'.outcomes = s.outcomes
  queue : s'.queue.filter (·.task != t) = s.queue.filter (·.task != t)
  waiting : s'.waiting.filter (·.2.task != t) = s.waiting.filter (·.2.task != t)

/-- The waiting task that the turn of a task is to be told of an outcome for. -/
def relayed? (t : TaskId) : Turn σ → Option (Waiter σ)
  | .relay w _ => if w.task == t then some w else none
  | .run _ _ _ => none

/-- The turn as it stands once its task is cancelled. -/
def struck (t : TaskId) : Turn σ → Turn σ
  | .run u signal next => if u == t then .run u (.error .cancelled) next else .run u signal next
  | turn => turn

theorem struck_task (t : TaskId) (turn : Turn σ) : (struck t turn).task = turn.task := by
  cases turn with
  | relay w outcome => rfl
  | run u signal next => simp only [struck]; split <;> rfl

theorem struck_of_ne {t : TaskId} {turn : Turn σ} (h : turn.task ≠ t) : struck t turn = turn := by
  cases turn with
  | relay w outcome => rfl
  | run u signal next => simp [struck, show u ≠ t from h]

theorem task_of_isRelayTo {t : TaskId} {turn : Turn σ} (h : isRelayTo t turn = true) :
    turn.task = t := by
  cases turn with
  | relay w outcome => exact beq_iff_eq.mp h
  | run u signal next => cases h

/-- A cancelled task waited for another one, or was about to be told an outcome, or stood in the
queue, if it stood anywhere. -/
theorem cancel_cases (s : Schedule σ) (t : TaskId) :
    (∃ other w, (other, w) ∈ s.waiting ∧ w.task = t ∧ s.cancel t =
      enqueue { s with waiting := s.waiting.filter (·.2.task != t) } (wake w (.error .cancelled))) ∨
    (∃ w outcome, .relay w outcome ∈ s.queue ∧ w.task = t ∧ s.cancel t =
      enqueue { s with queue := s.queue.filter (!isRelayTo t ·) } (wake w (.error .cancelled))) ∨
    (s.cancel t = { s with queue := s.queue.map (struck t) }) := by
  unfold cancel
  split
  · next other w found =>
    exact .inl ⟨other, w, List.mem_of_find?_eq_some found, by simpa using List.find?_some found, rfl⟩
  · dsimp only
    split
    · next w found =>
      obtain ⟨turn, there, told⟩ := List.exists_of_findSome?_eq_some found
      cases turn with
      | run u signal next => cases told
      | relay w' outcome =>
        simp only [Option.ite_none_right_eq_some, Option.some.injEq, beq_iff_eq] at told
        obtain ⟨own, rfl⟩ := told
        exact .inr (.inl ⟨w', outcome, there, own, rfl⟩)
    · refine .inr (.inr ?_)
      congr 2

theorem cancels_cancel (s : Schedule σ) (t : TaskId) : Cancels t s (s.cancel t) := by
  obtain ⟨other, w, there, rfl, eq⟩ | ⟨w, outcome, there, rfl, eq⟩ | eq := cancel_cases s t <;>
    rw [eq]
  · refine ⟨rfl, rfl, ?_, ?_⟩
    · simp [enqueue]
    · simp [enqueue, List.filter_filter]
  · refine ⟨rfl, rfl, ?_, rfl⟩
    simp only [enqueue, List.filter_append, List.filter_filter]
    rw [List.filter_cons_of_neg (by simp), List.filter_nil, List.append_nil]
    refine List.filter_congr fun turn _ => ?_
    cases relayed : isRelayTo w.task turn with
    | true => simp [task_of_isRelayTo relayed]
    | false => simp
  · refine ⟨rfl, rfl, ?_, rfl⟩
    simp only [List.filter_map]
    rw [show ((fun turn : Turn σ => turn.task != t) ∘ struck t) = fun turn => turn.task != t from
      funext fun turn => by simp [struck_task]]
    refine (List.map_congr_left fun turn there => ?_).trans (List.map_id _)
    simpa using struck_of_ne (by simpa using (List.mem_filter.mp there).2)

theorem standing_cancel {s : Schedule σ} (once : s.standing.Nodup) (t : TaskId) :
    (s.cancel t).standing.Perm s.standing := by
  have queueOnce := once.of_append_left
  have waitingOnce := once.of_append_right
  obtain ⟨other, w, there, rfl, eq⟩ | ⟨w, outcome, there, rfl, eq⟩ | eq := cancel_cases s t <;>
    rw [eq]
  · have apart := (perm_cons_filter_ne (f := fun e : TaskId × Waiter σ => e.2.task) waitingOnce
      there).map (·.2.task)
    exact (standing_enqueue _ _).trans (List.perm_middle.symm.trans (apart.symm.append_left _))
  · have apart := (perm_cons_filter_ne queueOnce there).map Turn.task
    have others : s.queue.filter (!isRelayTo w.task ·) = s.queue.filter (·.task != w.task) := by
      refine List.filter_congr fun turn here => ?_
      by_cases own : turn.task = w.task
      · obtain rfl := List.inj_on_of_nodup_map queueOnce here there own
        simp [isRelayTo, Turn.task]
      · cases relayed : isRelayTo w.task turn with
        | true => exact absurd (task_of_isRelayTo relayed) own
        | false => simp [own]
    refine (standing_enqueue _ _).trans ?_
    rw [standing, others]
    exact (apart.symm.append_right _)
  · simp [standing, Function.comp_def, struck_task]

theorem Placed.cancel {s : Schedule σ} {running : List TaskId} (h : s.Placed running) (t : TaskId) :
    (s.cancel t).Placed running := by
  have kept := cancels_cancel s t
  have perm := standing_cancel h.once.of_append_right t
  refine h.of_perm (perm.append_left running) kept.outcomes fun e there => .inl ?_
  obtain ⟨other, w, _, _, eq⟩ | ⟨w, outcome, _, _, eq⟩ | eq := cancel_cases s t
  · rw [eq] at there
    exact (List.mem_filter.mp there).1
  · rw [eq] at there
    exact there
  · rw [eq] at there
    exact there

theorem Cancels.mem_queue {s s' : Schedule σ} {t : TaskId} (h : Cancels t s s') {turn : Turn σ}
    (other : turn.task ≠ t) (there : turn ∈ s.queue) : turn ∈ s'.queue := by
  have kept : turn ∈ s'.queue.filter (·.task != t) := by
    rw [h.queue]
    simp [there, other]
  exact (List.mem_filter.mp kept).1

theorem Cancels.mem_waiting {s s' : Schedule σ} {t : TaskId} (h : Cancels t s s')
    {e : TaskId × Waiter σ} (other : e.2.task ≠ t) (there : e ∈ s.waiting) : e ∈ s'.waiting := by
  have kept : e ∈ s'.waiting.filter (·.2.task != t) := by
    rw [h.waiting]
    simp [there, other]
  exact (List.mem_filter.mp kept).1

/-- A task that runs stands in one place again, or has settled, once it has gone on until it waits or
ends: by induction on the process. -/
theorem Placed.drive {s : Schedule σ} {t : TaskId} (h : s.Placed [t]) (p : Process σ) :
    (drive t p s).Placed [] := by
  induction p generalizing s with
  | done r => exact h.settle r
  | get _ ih => exact ih s.state h
  | set state _ ih => exact ih (s := { s with state := state }) ⟨h.once, h.mem_iff, h.awaited⟩
  | ask _ _ ih => exact ih _ h
  | pause _ _ => exact @Placed.enqueue _ _ _ (.run t (.ok ()) _) h
  | spawn body next _ ih => exact ih _ (@Placed.enqueue _ _ _ (.run s.outcomes.size (.ok ()) _) h.push)
  | join other next ih =>
    simp only [Schedule.drive]
    split
    · exact ih _ h
    · next unsettled => exact Placed.join h unsettled
  | cancel other _ ih => exact ih (h.cancel other)

/-- Whichever turn is taken, each task stands in one place afterwards. -/
theorem Placed.play {s : Schedule σ} {turn : Turn σ} (h : s.Placed [turn.task]) :
    (play turn s).Placed [] := by
  cases turn with
  | run t signal next => exact h.drive _
  | relay w outcome => exact @Placed.enqueue _ _ _ (wake w outcome) h

/-! A turn of one task leaves the others where they are. -/

namespace Spares

theorem refl (t : TaskId) (s : Schedule σ) : Spares t s s :=
  ⟨fun _ there => there, fun _ there => .inl there, fun there => there, fun _ there => there,
    (Nat.le_refl _)⟩

theorem trans {t : TaskId} {s s' s'' : Schedule σ} (h : Spares t s s') (h' : Spares t s' s'') :
    Spares t s s'' where
  queue turn there := h'.queue turn (h.queue turn there)
  waiting e there := by
    obtain waits | ⟨outcome, settled, told⟩ := h.waiting e there
    · exact h'.waiting e waits
    · exact .inr ⟨outcome, h'.settled settled, h'.queue _ told⟩
  settled there := h'.settled (h.settled there)
  stays other there := h'.stays other (h.stays other there)
  size := Nat.le_trans h.size h'.size

/-- Nothing is taken away, and whoever was there has the outcome it had. -/
theorem of_kept {t : TaskId} {s s' : Schedule σ} (queue : ∀ turn ∈ s.queue, turn ∈ s'.queue)
    (waiting : ∀ e ∈ s.waiting, e ∈ s'.waiting)
    (outcomes : ∀ other < s.outcomes.size, s'.outcomes[other]? = s.outcomes[other]?)
    (size : s.outcomes.size ≤ s'.outcomes.size) : Spares t s s' where
  queue := queue
  waiting e there := .inl (waiting e there)
  settled there := (outcomes _ there.lt).trans there
  stays _ there := (outcomes _ there.lt).trans there
  size := size

theorem of_state (t : TaskId) (s : Schedule σ) (state : σ) : Spares t s { s with state := state } :=
  of_kept (fun _ there => there) (fun _ there => there) (fun _ _ => rfl) (Nat.le_refl _)

theorem enqueue (t : TaskId) (s : Schedule σ) (turn : Turn σ) : Spares t s (s.enqueue turn) :=
  of_kept (fun _ there => List.mem_append_left _ there) (fun _ there => there) (fun _ _ => rfl)
    (Nat.le_refl _)

theorem wait (t : TaskId) (s : Schedule σ) (e : TaskId × Waiter σ) :
    Spares t s { s with waiting := s.waiting ++ [e] } :=
  of_kept (fun _ there => there) (fun _ there => List.mem_append_left _ there) (fun _ _ => rfl)
    (Nat.le_refl _)

theorem push (t : TaskId) (s : Schedule σ) :
    Spares t s { s with outcomes := s.outcomes.push none } :=
  of_kept (fun _ there => there) (fun _ there => there)
    (fun other lt => by simp [Array.getElem?_push, Nat.ne_of_lt lt]) (by simp)

theorem settle {t : TaskId} {s : Schedule σ} (isOpen : s.Open t) (outcome : Except Error Value) :
    Spares t s (s.settle t outcome) where
  queue _ there := List.mem_append_left _ there
  waiting e there := by
    by_cases own : e.1 = t
    · refine .inr ⟨outcome, ?_, ?_⟩
      · simp [Settled, Schedule.settle, own, isOpen.lt]
      · refine List.mem_append_right _ (List.mem_map.mpr ⟨e, ?_, rfl⟩)
        simp [there, own]
    · exact .inl (by simp [Schedule.settle, there, own])
  settled {other outcome} there := by
    have apart : t ≠ other := fun same => there.not_open (same ▸ isOpen)
    simpa [Settled, Schedule.settle, Array.getElem?_setIfInBounds, apart] using there
  stays {other} apart there := by
    simpa [Open, Schedule.settle, Array.getElem?_setIfInBounds, Ne.symm apart] using there
  size := by simp [Schedule.settle]

end Spares

/-! Waiting for an outcome goes on through the turns of others, until the outcome is there. -/

/-- A task that waits for another one, or is about to be told its outcome, has not settled. -/
theorem Awaits.isOpen {s : Schedule σ} {t other : TaskId} {next : Except Error Value → Process σ}
    (h : s.Awaits t other next) (placed : s.Placed []) : s.Open t := by
  refine (placed.mem_iff t).mp ?_
  obtain waits | ⟨_, _, there | there⟩ := h
  · exact mem_standing_of_waiting waits
  · exact mem_standing_of_queue there
  · exact mem_standing_of_queue there

theorem Awaits.spared {s s' : Schedule σ} {t t' other : TaskId}
    {next : Except Error Value → Process σ} (h : s.Awaits t other next) (kept : Spares t' s s') :
    s'.Awaits t other next := by
  obtain waits | ⟨outcome, settled, relayed | woken⟩ := h
  · obtain still | ⟨outcome, settled, told⟩ := kept.waiting _ waits
    · exact .inl still
    · exact .inr ⟨outcome, settled, .inl told⟩
  · exact .inr ⟨outcome, kept.settled settled, .inl (kept.queue _ relayed)⟩
  · exact .inr ⟨outcome, kept.settled settled, .inr (kept.queue _ woken)⟩

theorem Awaits.cancelled {s s' : Schedule σ} {t t' other : TaskId}
    {next : Except Error Value → Process σ} (h : s.Awaits t other next) (kept : Cancels t' s s')
    (apart : t ≠ t') : s'.Awaits t other next := by
  obtain waits | ⟨outcome, settled, relayed | woken⟩ := h
  · exact .inl (kept.mem_waiting apart waits)
  · exact .inr ⟨outcome, by rw [Settled, kept.outcomes]; exact settled,
      .inl (kept.mem_queue apart relayed)⟩
  · exact .inr ⟨outcome, by rw [Settled, kept.outcomes]; exact settled,
      .inr (kept.mem_queue apart woken)⟩

/-- A relayed outcome reaches whoever waits for it; the others wait on. -/
theorem Awaits.relayed {s : Schedule σ} {before after : List (Turn σ)} {w : Waiter σ}
    {outcome : Except Error Value} {t other : TaskId} {next : Except Error Value → Process σ}
    (h : s.Awaits t other next) (taken : s.queue = before ++ .relay w outcome :: after) :
    (enqueue { s with queue := before ++ after } (wake w outcome)).Awaits t other next := by
  obtain waits | ⟨out, settled, told⟩ := h
  · exact .inl waits
  · refine .inr ⟨out, settled, ?_⟩
    simp only [taken, enqueue, List.mem_append, List.mem_cons, List.not_mem_nil, or_false]
      at told ⊢
    obtain (there | own | there) | (there | own | there) := told
    · exact .inl (.inl (.inl there))
    · cases own
      exact .inr (.inr rfl)
    · exact .inl (.inl (.inr there))
    · exact .inr (.inl (.inl there))
    · cases own
    · exact .inr (.inl (.inr there))

/-- The turn of another task is taken out of the queue. -/
theorem Awaits.taken {s : Schedule σ} {before after : List (Turn σ)} {turn : Turn σ}
    {t other : TaskId} {next : Except Error Value → Process σ} (h : s.Awaits t other next)
    (taken : s.queue = before ++ turn :: after) (apart : turn.task ≠ t) :
    Awaits { s with queue := before ++ after } t other next := by
  obtain waits | ⟨out, settled, told⟩ := h
  · exact .inl waits
  · refine .inr ⟨out, settled, ?_⟩
    simp only [taken, List.mem_append, List.mem_cons] at told ⊢
    obtain (there | rfl | there) | (there | rfl | there) := told
    · exact .inl (.inl there)
    · exact absurd rfl apart
    · exact .inl (.inr there)
    · exact .inr (.inl there)
    · exact absurd rfl apart
    · exact .inr (.inr there)

/-- Whoever waits for an outcome and is told of it has no other turn than this one. -/
theorem Awaits.own_turn {s : Schedule σ} {t other : TaskId} {signal : Except Error Unit}
    {next : Except Error Value → Process σ} {go : Except Error Unit → Process σ}
    (h : s.Awaits t other next) (placed : s.Placed []) (there : .run t signal go ∈ s.queue) :
    ∃ outcome, s.Settled other outcome ∧ .run t signal go = wake ⟨t, next⟩ outcome := by
  have once : (s.queue.map Turn.task ++ s.waiting.map (·.2.task)).Nodup := placed.once
  have queueOnce := once.of_append_left
  obtain waits | ⟨outcome, settled, relayed | woken⟩ := h
  · have apart := (List.nodup_append.mp once).2.2 _ (List.mem_map_of_mem there) _
      (List.mem_map_of_mem waits)
    exact absurd rfl apart
  · cases List.inj_on_of_nodup_map queueOnce there relayed rfl
  · exact ⟨outcome, settled, List.inj_on_of_nodup_map queueOnce there woken rfl⟩

/-- In an empty queue no outcome is on its way: a task that still waits, waits for one that has not
settled. -/
theorem Awaits.at_rest {s : Schedule σ} {t other : TaskId} {next : Except Error Value → Process σ}
    (h : s.Awaits t other next) (placed : s.Placed []) (rests : s.queue = []) :
    (s.outcomes[other]?).join = none := by
  obtain waits | ⟨_, _, relayed | woken⟩ := h
  · exact placed.awaited _ waits
  · simp [rests] at relayed
  · simp [rests] at woken

end Schedule

end Relata
