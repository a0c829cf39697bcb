import Relata.Proofs.Loading.Joint

/-!
How calls that share a load come to rest. The load comes to its end by its own turns; then each call
is told the outcome and ends, in at most two turns.
-/

namespace Relata

namespace Process

variable {σ α : Type} {pact : Pact σ}

/-- A task that is alone in having turns comes to its last piece: by induction on its turns. -/
theorem Along.comes_to (lawful : pact.Lawful) {last : Except Error α → Process σ}
    {Q : Except Error α → σ → Prop} {p : Process σ} {w : σ} (h : Along pact last Q p w)
    (task : TaskId) (s : Schedule σ) (here : s.state = w) (alone : s.queue = []) :
    ∃ n r w', (Schedule.drive task p s).runFor n =
      Schedule.drive task (last r) { s with state := w' } := by
  induction h generalizing s with
  | @ends r w _ => exact ⟨0, r, w, by rw [← here]; rfl⟩
  | get _ ih =>
    rw [Schedule.drive, here]
    exact ih s here alone
  | change _ _ ih =>
    rw [Schedule.drive]
    exact ih { s with state := _ } rfl alone
  | @pause next w _ _ ih =>
    obtain ⟨n, r, w', ends⟩ := ih w (lawful.rely_refl w) s here alone
    refine ⟨n + 1, r, w', Eq.trans ?_ ends⟩
    rw [Schedule.drive, Schedule.enqueue, alone, Schedule.runFor]
    simp only [List.nil_append, List.isEmpty_cons, Bool.false_eq_true, if_false, Schedule.step]
    rw [← alone]

end Process

namespace Schedule

variable {σ : Type}

/-- Turns taken one after the other. -/
theorem runFor_add (n m : Nat) (s : Schedule σ) : s.runFor (n + m) = (s.runFor n).runFor m := by
  induction n generalizing s with
  | zero => rw [Nat.zero_add, runFor]
  | succ n ih =>
    by_cases rests : s.queue.isEmpty = true
    · have idle (k : Nat) : s.runFor k = s := by
        cases k with
        | zero => rfl
        | succ k => rw [runFor, if_pos rests]
      rw [idle, idle, idle]
    · rw [Nat.succ_add, runFor, if_neg rests, ih, runFor, if_neg rests]

end Schedule

namespace Joint

variable {τ ι : Type} {S : Sharing τ ι} {T : S.Terms} {x : Joint τ ι} {t : TaskId} {first : ι}
  {start : World τ}

/-- While the load goes on, nothing else has a turn. -/
theorem Going.queue_eq {k : Value} {next : Except Error Unit → Process (World τ)}
    (h : Going T t first k next x) : x.schedule.queue = [.run t (.ok ()) next] := by
  have once : (x.schedule.queue.map Turn.task).Nodup :=
    List.Nodup.of_append_left h.company.placed.once
  have each : ∀ turn ∈ x.schedule.queue, turn = .run t (.ok ()) next := fun _ => h.turn_eq
  have there := h.turn
  revert once each there
  cases x.schedule.queue with
  | nil => intro _ _ there; cases there
  | cons turn rest =>
    intro once each _
    obtain rfl := each turn (.head _)
    cases rest with
    | nil => rfl
    | cons other rest =>
      obtain rfl := each other (.tail _ (.head _))
      simp at once

/-- Once the load has settled, nobody waits. -/
theorem Over.waiting_eq {outcome : Except Error Value} (h : Over T t first outcome x) :
    x.schedule.waiting = [] := by
  refine List.eq_nil_iff_forall_not_mem.mpr fun e there => ?_
  have placed := h.company.placed
  have isOpen := (placed.mem_iff e.2.task).mp (Schedule.mem_standing_of_waiting there)
  obtain ⟨c, hc, own⟩ := (h.company.all _ isOpen.lt).resolve_left fun same =>
    h.settled.not_open (same ▸ isOpen)
  obtain ⟨_, post, _, awaits⟩ := (h.calls c hc).resolve_right fun ⟨r, ended, _⟩ =>
    ended.not_open (own ▸ isOpen)
  have once : (x.schedule.queue.map Turn.task ++ x.schedule.waiting.map (·.2.task)).Nodup :=
    placed.once
  obtain waits | ⟨out, _, told⟩ := awaits
  · have pending := placed.awaited _ waits
    rw [h.company.loads c hc, show x.schedule.outcomes[t]? = _ from h.settled] at pending
    cases pending
  · obtain ⟨turn, queued, task⟩ : ∃ turn ∈ x.schedule.queue, turn.task = c.task := by
      rcases told with there | there
      · exact ⟨_, there, rfl⟩
      · exact ⟨_, there, rfl⟩
    exact (List.nodup_append.mp once).2.2 _ (List.mem_map_of_mem queued) _
      (List.mem_map_of_mem there) (task.trans own)

/-- How many turns it takes at most until all that are told an outcome have ended. -/
def left (queue : List (Turn (World τ))) : Nat :=
  (queue.map fun
    | .relay _ _ => 2
    | .run _ _ _ => 1).sum

/-- Once the load has settled, the calls end one after the other: by induction on the turns left. -/
theorem Over.comes_to_rest (laws : T.Lawful) {outcome : Except Error Value}
    (h : Over T t first outcome x) : ∃ n, (x.schedule.runFor n).queue = [] := by
  induction left_ : left x.schedule.queue using Nat.strong_induction_on generalizing x with
  | _ n ih =>
    cases queue : x.schedule.queue with
    | nil => exact ⟨0, queue⟩
    | cons turn rest =>
      have next := Sound.call_turn laws h (Schedule.takes_step queue)
      have fewer : left x.schedule.step.queue < n := by
        rw [← left_, queue, Schedule.step, queue]
        cases turn with
        | relay w out => simp [left, Schedule.enqueue, Schedule.wake, Nat.add_comm 2]
        | run u signal go =>
          have taken : x.schedule.queue = [] ++ .run u signal go :: rest := queue
          obtain ⟨c, -, -, r, w, -, -, ends⟩ := Sound.ends_of_over h taken
          rw [List.nil_append] at ends
          dsimp only
          rw [show Schedule.drive u (go signal) _ = _ from ends]
          simp [left, Schedule.settle, h.waiting_eq]
      obtain ⟨m, rests⟩ := ih _ fewer next rfl
      refine ⟨m + 1, ?_⟩
      rw [Schedule.runFor, queue]
      exact rests

/-- What holds once the load has settled. -/
theorem Sound.past_of_settled (h : Sound T x) (settled : x.Settled) :
    ∃ t first outcome, Over T t first outcome x := by
  cases h with
  | idle => obtain ⟨c, none, _⟩ := settled; cases none
  | going h => exact absurd settled h.not_settled
  | past h => exact ⟨_, _, _, h⟩

/-- Whoever calls is in company. -/
theorem Sound.company (h : Sound T x) (some_ : x.calls ≠ []) : ∃ t, Company t x := by
  cases h with
  | idle => exact absurd rfl some_
  | going h => exact ⟨_, h.company⟩
  | past h => exact ⟨_, h.company⟩

theorem Sound.settled_past (h : Sound T x) (company : Company t x) {outcome : Except Error Value}
    (settled : x.schedule.Settled t outcome) : ∃ first, Over T t first outcome x := by
  obtain ⟨c, hc⟩ := List.exists_mem_of_ne_nil _ company.some_
  have same : ∀ {u}, Company u x → u = t := fun other =>
    (other.loads c hc).symm.trans (company.loads c hc)
  obtain ⟨u, first, outcome', past⟩ :=
    h.past_of_settled ⟨c, hc, outcome, (company.loads c hc).symm ▸ settled⟩
  obtain rfl := same past.company
  exact ⟨first, past.settled.unique settled ▸ past⟩

/-- Calls that share a load come to rest. -/
theorem Reached.comes_to_rest (laws : T.Lawful) (begins : T.begins start)
    (free : start.inFlight? S.registry S.key = some none) (h : Reached S start x) :
    ∃ n, (x.schedule.runFor n).queue = [] := by
  have sound := h.sound laws begins free
  cases sound with
  | idle => exact ⟨0, rfl⟩
  | past h => exact h.comes_to_rest laws
  | @going _ t first k next going =>
    -- The load settles by its own turns, and what is reached then is over.
    obtain ⟨n, r, w, ends⟩ := (going.along _ ((laws.pact first).rely_refl _)).comes_to
      (laws.pact first) t { x.schedule with queue := [] } rfl rfl
    have settles : (x.schedule.runFor (n + 1)).Settled t r := by
      have isOpen := (going.company.placed.mem_iff t).mp (Schedule.mem_standing_of_queue going.turn)
      rw [Schedule.runFor, going.queue_eq, Schedule.step, going.queue_eq]
      dsimp only [List.isEmpty_cons]
      rw [if_neg Bool.false_ne_true, ends]
      exact Schedule.settled_settle isOpen r
    obtain ⟨c, hc⟩ := List.exists_mem_of_ne_nil _ going.company.some_
    have later := (h.runFor (n + 1)).sound laws begins free
    obtain ⟨_, _, _, past⟩ := later.past_of_settled ⟨c, hc, r, by rw [going.company.loads c hc]; exact settles⟩
    obtain ⟨m, rests⟩ := past.comes_to_rest laws
    exact ⟨n + 1 + m, by rw [Schedule.runFor_add]; exact rests⟩

/-- At rest every call has ended. -/
theorem Sound.at_rest (h : Sound T x) (rests : x.schedule.queue = []) {c : Call ι}
    (hc : c ∈ x.calls) : ∃ r, x.schedule.Settled c.task r := by
  cases h with
  | idle => cases hc
  | going h =>
    have there := h.turn
    rw [rests] at there
    cases there
  | past h =>
    obtain ⟨_, _, _, awaits⟩ | ⟨r, ended, _⟩ := h.calls c hc
    · have pending := awaits.at_rest h.company.placed rests
      rw [h.company.loads c hc, show x.schedule.outcomes[_]? = _ from h.settled] at pending
      cases pending
    · exact ⟨r, ended⟩

end Joint

end Relata
