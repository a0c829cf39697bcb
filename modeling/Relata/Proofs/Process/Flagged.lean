import Relata.Proofs.Process.Abides

/-!
Flags. A process may put up a flag only while it is on its way to a piece that takes it down again, and
it gets there whatever it is told, by being cancelled too. Main statement: whichever turns are taken,
whatever is launched and whoever is cancelled, while the flag is up some task is on its way to such a
piece.
-/

namespace Relata

open Relation (ReflTransGen)
open Process (byLaw begin Answers)

variable {σ α β : Type}

namespace Process

/-- A process that comes to a piece of `C` by changes that the law allows. While it waits, for rows or
for its turn, others may make such changes. -/
inductive Towards (law : σ → σ → Prop) (C : Process σ → σ → Prop) : Process σ → σ → Prop
  | there {p : Process σ} {s : σ} : C p s → Towards law C p s
  | get {next : σ → Process σ} {s : σ} : Towards law C (next s) s → Towards law C (.get next) s
  | set {p : Process σ} {s t : σ} : law s t → Towards law C p t → Towards law C (.set t p) s
  | ask {r : Request} {next : Except Error (List Row) → Process σ} {s : σ} :
    (∀ rows t, ReflTransGen law s t → Towards law C (next rows) t) → Towards law C (.ask r next) s
  | pause {next : Except Error Unit → Process σ} {s : σ} :
    (∀ signal t, ReflTransGen law s t → Towards law C (next signal) t) → Towards law C (.pause next) s

/-- The pieces once their statements are answered. -/
def Answered (runner : Request → Act σ (List Row)) (C : Process σ → σ → Prop) (p : Process σ) (s : σ) :
    Prop := ∃ q, C q s ∧ p = q.answered runner

end Process

/-- A flag that is up in some states. `ways` tells the pieces that have to be on the way of a process
for it to put up the flag. -/
structure Flag (σ : Type) where
  law : σ → σ → Prop
  up : σ → Prop
  ways : (Process σ → σ → Prop) → Prop

namespace Flag

variable (flag : Flag σ)

/-- The flag for processes whose statements are answered. -/
def answered (runner : Request → Act σ (List Row)) : Flag σ :=
  { flag with ways := fun C => ∃ C', flag.ways C' ∧ C = Process.Answered runner C' }

/-- Those who leave the flag down beside others who abide by the law. -/
def quiet : Pact σ :=
  ⟨fun s t => flag.law s t ∧ (flag.up t → flag.up s), ReflTransGen flag.law, fun _ => True⟩

/-- Those who abide by the law and do not wait. -/
def brisk : Pact σ := ⟨flag.law, ReflTransGen flag.law, fun _ => False⟩

end Flag

variable {flag : Flag σ}

namespace Process

/-- A process that minds the flag from a state on. One that is `lowering` it takes it down within its
turn. -/
inductive Minds (flag : Flag σ) : (lowering : Bool) → Process σ → σ → Prop
  | done (r : Except Error Value) (s : σ) : Minds flag false (.done r) s
  | get {lowering : Bool} {next : σ → Process σ} {s : σ} : Minds flag lowering (next s) s →
    Minds flag lowering (.get next) s
  | set {lowering : Bool} {p : Process σ} {s t : σ} : flag.law s t →
    (lowering = false → flag.up t → flag.up s) → Minds flag lowering p t →
      Minds flag lowering (.set t p) s
  | ask {r : Request} {next : Except Error (List Row) → Process σ} {s : σ} :
    (∀ rows t, ReflTransGen flag.law s t → Minds flag false (next rows) t) →
      Minds flag false (.ask r next) s
  | pause {next : Except Error Unit → Process σ} {s : σ} :
    (∀ signal t, ReflTransGen flag.law s t → Minds flag false (next signal) t) →
      Minds flag false (.pause next) s
  | spawn {body next : TaskId → Process σ} {s : σ} :
    (∀ u t, ReflTransGen flag.law s t → Minds flag false (body u) t) →
      (∀ u, Minds flag false (next u) s) → Minds flag false (.spawn body next) s
  | join {u : TaskId} {next : Except Error Value → Process σ} {s : σ} :
    (∀ outcome t, ReflTransGen flag.law s t → Minds flag false (next outcome) t) →
      Minds flag false (.join u next) s
  | cancel {u : TaskId} {p : Process σ} {s : σ} : Minds flag false p s →
    Minds flag false (.cancel u p) s
  | raise {C : Process σ → σ → Prop} {p : Process σ} {s : σ} : flag.ways C →
    Towards flag.law C p s → (∀ q t, C q t → Minds flag true q t) → Minds flag false p s
  | lowered {p : Process σ} {s : σ} : ¬ flag.up s → Minds flag false p s → Minds flag true p s

variable {law : σ → σ → Prop} {C : Process σ → σ → Prop} {p : Process σ} {s : σ}

theorem Towards.trans {C' : Process σ → σ → Prop} (h : Towards law C p s)
    (next : ∀ q t, ReflTransGen law s t → C q t → Towards law C' q t) : Towards law C' p s := by
  induction h with
  | there here => exact next _ _ .refl here
  | get _ ih => exact .get (ih next)
  | set allowed _ ih => exact .set allowed (ih fun q t later => next q t (.head allowed later))
  | ask _ ih =>
    exact .ask fun rows t later => ih rows t later fun q u further => next q u (later.trans further)
  | pause _ ih =>
    exact .pause fun told t later => ih told t later fun q u further => next q u (later.trans further)

/-- What is done aside leads to what comes after it. -/
theorem Aside.towards {last : Except Error α → Process σ} (aside : Aside (byLaw law) last p)
    (next : ∀ r t, ReflTransGen law s t → Towards law C (last r) t) : Towards law C p s := by
  induction aside generalizing s with
  | ends r => exact next r s .refl
  | get _ ih => exact .get (ih _ next)
  | change allowed _ ih =>
    exact .get (.set (allowed s).2 (ih _ fun r t later => next r t (.head (allowed s).2 later)))
  | pause _ ih =>
    exact .pause fun told t later => ih told fun r u further => next r u (later.trans further)

theorem Towards.answered (h : Towards law C p s) {runner : Request → Act σ (List Row)}
    (answers : Answers (byLaw law) runner) :
    Towards law (Answered runner C) (p.answered runner) s := by
  induction h with
  | there here => exact .there ⟨_, here, rfl⟩
  | get _ ih => exact .get ih
  | set allowed _ ih => exact .set allowed ih
  | @ask r _ _ _ ih => exact (answers r _).towards ih
  | pause _ ih => exact .pause ih

/-- A process that goes by the law leads to its last piece. -/
theorem Alike.towards {last last' : Except Error α → Process σ} {Q : Except Error α → σ → Prop}
    {q : Process σ} (alike : Alike (byLaw law) last last' Q p q s)
    (next : ∀ r t, Q r t → Towards law C (last r) t) : Towards law C p s := by
  induction alike with
  | ends came => exact next _ _ came
  | left _ ih => exact .get ih
  | right _ ih => exact ih
  | change allowed _ ih => exact .set allowed ih
  | ask _ _ ih => exact .ask ih

theorem Towards.abides (h : Towards law C p s) (next : ∀ q t, C q t → q.Abides law t) :
    p.Abides law s := by
  induction h with
  | there here => exact next _ _ here
  | get _ ih => exact .get ih
  | set allowed _ ih => exact .set allowed ih
  | ask _ ih => exact .ask ih
  | pause _ ih => exact .pause ih

/-- Whoever minds the flag abides by its law. -/
theorem Minds.abides {lowering : Bool} (h : Minds flag lowering p s) : p.Abides flag.law s := by
  induction h with
  | done r s => exact .done r s
  | get _ ih => exact .get ih
  | set allowed _ _ ih => exact .set allowed ih
  | ask _ ih => exact .ask ih
  | pause _ ih => exact .pause ih
  | spawn _ _ ihBody ih => exact .spawn ihBody ih
  | join _ ih => exact .join ih
  | cancel _ ih => exact .cancel ih
  | raise _ towards _ ih => exact towards.abides ih
  | lowered _ _ ih => exact ih

theorem Aside.minds {last : Except Error α → Process σ} (aside : Aside flag.quiet last p)
    (next : ∀ r t, ReflTransGen flag.law s t → (last r).Minds flag false t) :
    p.Minds flag false s := by
  induction aside generalizing s with
  | ends r => exact next r s .refl
  | get _ ih => exact .get (ih _ next)
  | change allowed _ ih =>
    obtain ⟨lawful, stays⟩ := (allowed s).2
    exact .get (.set lawful (fun _ => stays) (ih _ fun r t later => next r t (.head lawful later)))
  | pause _ ih =>
    exact .pause fun told t later => ih told fun r u further => next r u (later.trans further)

/-- Answering the statements of a process leaves it one that minds the flag. -/
theorem Minds.answered {lowering : Bool} (h : Minds flag lowering p s)
    {runner : Request → Act σ (List Row)} (answers : Answers flag.quiet runner) :
    Minds (flag.answered runner) lowering (p.answered runner) s := by
  induction h with
  | done r s => exact .done r s
  | get _ ih => exact .get ih
  | set allowed stays _ ih => exact .set allowed stays ih
  | @ask r next _ _ ih =>
    have aside : Aside (flag.answered runner).quiet (fun rows => (next rows).answered runner)
        (runner r fun rows => (next rows).answered runner) := answers r _
    exact aside.minds ih
  | pause _ ih => exact .pause ih
  | spawn _ _ ihBody ih => exact .spawn ihBody ih
  | join _ ih => exact .join ih
  | cancel _ ih => exact .cancel ih
  | raise way towards _ ih =>
    refine .raise ⟨_, way, rfl⟩ (towards.answered fun r last => (answers r last).mono id And.left) ?_
    rintro _ t ⟨q, here, rfl⟩
    exact ih q t here
  | lowered down _ ih => exact .lowered down ih

/-- A process that leaves the flag down minds it, if its last piece does. -/
theorem Alike.minds {last last' : Except Error α → Process σ} {Q : Except Error α → σ → Prop}
    {q : Process σ} (alike : Alike flag.quiet last last' Q p q s)
    (next : ∀ r t, Q r t → (last r).Minds flag false t) : p.Minds flag false s := by
  induction alike with
  | ends came => exact next _ _ came
  | left _ ih => exact .get ih
  | right _ ih => exact ih
  | change allowed _ ih => exact .set allowed.1 (fun _ => allowed.2) ih
  | ask _ _ ih => exact .ask ih

/-- A process that does not wait is still lowering the flag when it comes to its last piece. -/
theorem Alike.lowers {last last' : Except Error α → Process σ} {Q : Except Error α → σ → Prop}
    {q : Process σ} (alike : Alike flag.brisk last last' Q p q s)
    (next : ∀ r t, Q r t → (last r).Minds flag true t) : p.Minds flag true s := by
  induction alike with
  | ends came => exact next _ _ came
  | left _ ih => exact .get ih
  | right _ ih => exact ih
  | change allowed _ ih => exact .set allowed (fun absurd => nomatch absurd) ih
  | ask waits => exact waits.elim

end Process

namespace Act

/-- An action that minds the flag from a state on, and what it comes to. -/
def Minds (flag : Flag σ) (x : Act σ α) (s : σ) (Q : Except Error α → σ → Prop) : Prop :=
  ∀ last : Except Error α → Process σ, (∀ r t, Q r t → (last r).Minds flag false t) →
    (x last).Minds flag false s

namespace Minds

variable {x : Act σ α} {s : σ} {Q Q' : Except Error α → σ → Prop}

theorem of_ends (h : x.Ends flag.quiet s Q) : x.Minds flag s Q := fun last next =>
  (h last last).minds next

/-- What comes after an action that does not wait is done within the turn that lowers the flag. -/
theorem lowers (h : x.Ends flag.brisk s Q) {last : Except Error α → Process σ}
    (next : ∀ r t, Q r t → (last r).Minds flag true t) : (x last).Minds flag true s :=
  (h last last).lowers next

/-- An action that goes by the law may put up the flag if what follows it takes the flag down. -/
theorem raise {y : Act σ β} {f : β → Act σ α} {last : Except Error α → Process σ}
    {C : Process σ → σ → Prop} (way : flag.ways C)
    (h : y.Ends (byLaw flag.law) s fun r t => ∃ b, r = .ok b ∧ C (f b last) t)
    (lowers : ∀ q t, C q t → q.Minds flag true t) : ((y >>= f) last).Minds flag false s := by
  let rest : Except Error β → Process σ := fun r => (Act.ofExcept r >>= f) last
  refine .raise way ((h rest rest).towards fun r t came => ?_) lowers
  obtain ⟨b, rfl, here⟩ := came
  exact .there here

theorem imp (h : x.Minds flag s Q) (hq : ∀ r t, Q r t → Q' r t) : x.Minds flag s Q' :=
  fun last next => h last fun r t came => next r t (hq r t came)

theorem bind {f : α → Act σ β} {P : Except Error β → σ → Prop} (h : x.Minds flag s Q)
    (hf : ∀ a t, Q (.ok a) t → (f a).Minds flag t P)
    (he : ∀ e t, Q (.error e) t → P (.error e) t) : (x >>= f).Minds flag s P := by
  intro last next
  refine h _ fun r t came => ?_
  cases r with
  | ok a => exact hf a t came last next
  | error e => exact next _ t (he e t came)

theorem attempt {Q : Except Error (Except Error α) → σ → Prop}
    (h : x.Minds flag s fun r => Q (.ok r)) : x.attempt.Minds flag s Q :=
  fun _ next => h _ fun r t came => next (.ok r) t came

theorem getsExcept_bind {r : σ → Except Error β} {f : β → Act σ α}
    (h : ∀ b, r s = .ok b → (f b).Minds flag s Q) (he : ∀ e, r s = .error e → Q (.error e) s) :
    (Act.getsExcept r >>= f).Minds flag s Q :=
  bind (Q := fun b t => t = s ∧ r s = b) (of_ends (.getsExcept ⟨rfl, rfl⟩))
    (fun b _ found => found.1 ▸ h b found.2) fun e _ found => found.1 ▸ he e found.2

/-- A task that is started may begin after any number of changes. -/
theorem spawn {body : TaskId → Act σ Value} {Q : Except Error TaskId → σ → Prop}
    (begins : ∀ u t, ReflTransGen flag.law s t → (body u).Minds flag t fun _ _ => True)
    (h : ∀ u, Q (.ok u) s) : (Act.spawn body).Minds flag s Q := fun _ next =>
  .spawn (fun u t later => begins u t later _ fun r t _ => .done r t) fun u => next _ s (h u)

theorem join {u : TaskId} {Q : Except Error Value → σ → Prop}
    (h : ∀ outcome t, ReflTransGen flag.law s t → Q outcome t) : (Act.join u).Minds flag s Q :=
  fun _ next => .join fun outcome t later => next outcome t (h outcome t later)

theorem pause {Q : Except Error Unit → σ → Prop}
    (h : ∀ signal t, ReflTransGen flag.law s t → Q signal t) : Act.pause.Minds flag s Q :=
  fun _ next => .pause fun signal t later => next signal t (h signal t later)

end Minds

end Act

/-- A task on its way to a piece that takes the flag down, whatever it is told. -/
def Turn.Owes (flag : Flag σ) (s : σ) : Turn σ → Prop
  | .run _ _ next => ∃ C, flag.ways C ∧ (∀ q t, C q t → q.Minds flag true t) ∧
      ∀ signal t, ReflTransGen flag.law s t → (next signal).Towards flag.law C t
  | .relay _ _ => False

def Turn.Minds (flag : Flag σ) (s : σ) : Turn σ → Prop
  | .run _ _ next => ∀ signal t, ReflTransGen flag.law s t → (next signal).Minds flag false t
  | .relay w _ => ∀ outcome t, ReflTransGen flag.law s t → (w.next outcome).Minds flag false t

theorem Turn.Owes.later {s t : σ} {turn : Turn σ} (h : turn.Owes flag s)
    (later : ReflTransGen flag.law s t) : turn.Owes flag t := by
  cases turn with
  | run u signal next =>
    obtain ⟨C, way, lowers, towards⟩ := h
    exact ⟨C, way, lowers, fun told v further => towards told v (later.trans further)⟩
  | relay w outcome => exact h

theorem Turn.Owes.minds {s : σ} {turn : Turn σ} (h : turn.Owes flag s) : turn.Minds flag s := by
  cases turn with
  | run u signal next =>
    obtain ⟨C, way, lowers, towards⟩ := h
    exact fun told t later => .raise way (towards told t later) lowers
  | relay w outcome => exact h.elim

namespace Schedule

/-- Every task minds the flag wherever it stands. -/
structure Mind (flag : Flag σ) (s : Schedule σ) : Prop where
  queue : ∀ turn ∈ s.queue, turn.Minds flag s.state
  waiting : ∀ e ∈ s.waiting, ∀ outcome t, ReflTransGen flag.law s.state t →
    (e.2.next outcome).Minds flag false t

/-- While the flag is up, some task is on its way to take it down. -/
def Owed (flag : Flag σ) (s : Schedule σ) : Prop :=
  flag.up s.state → ∃ turn ∈ s.queue, turn.Owes flag s.state

variable {s : Schedule σ} {turn : Turn σ}

theorem minds_wake {w : Waiter σ} {t : σ}
    (h : ∀ outcome u, ReflTransGen flag.law t u → (w.next outcome).Minds flag false u)
    (outcome : Except Error Value) : (wake w outcome).Minds flag t := by
  intro signal u later
  cases signal with
  | ok _ => exact h outcome u later
  | error e => exact h (.error e) u later

namespace Mind

theorem enqueue (h : s.Mind flag) (goes : turn.Minds flag s.state) : (s.enqueue turn).Mind flag where
  queue other there := by
    rcases List.mem_append.mp there with old | new
    · exact h.queue other old
    · exact List.mem_singleton.mp new ▸ goes
  waiting := h.waiting

theorem settle (h : s.Mind flag) (u : TaskId) (outcome : Except Error Value) :
    (s.settle u outcome).Mind flag where
  queue turn there := by
    rcases List.mem_append.mp there with old | told
    · exact h.queue turn old
    · obtain ⟨e, waited, rfl⟩ := List.mem_map.mp told
      exact h.waiting e (List.mem_filter.mp waited).1
  waiting e there := h.waiting e (List.mem_filter.mp there).1

theorem changed (h : s.Mind flag) {t : σ} (allowed : flag.law s.state t) :
    Mind flag { s with state := t } where
  queue turn there := by
    have goes := h.queue turn there
    cases turn with
    | run u signal next => exact fun told v later => goes told v (.head allowed later)
    | relay w outcome => exact fun told v later => goes told v (.head allowed later)
  waiting e there outcome v later := h.waiting e there outcome v (.head allowed later)

theorem cancel (h : s.Mind flag) (u : TaskId) : (s.cancel u).Mind flag := by
  obtain ⟨other, w, there, -, eq⟩ | ⟨w, outcome, there, -, eq⟩ | eq := cancel_cases s u <;> rw [eq]
  · refine enqueue ⟨h.queue, fun e kept => ?_⟩ (minds_wake (h.waiting _ there) _)
    exact h.waiting e (List.mem_filter.mp kept).1
  · refine enqueue ⟨fun turn kept => ?_, h.waiting⟩ (minds_wake (h.queue _ there) _)
    exact h.queue turn (List.mem_filter.mp kept).1
  · refine ⟨fun turn there => ?_, h.waiting⟩
    obtain ⟨was, stood, rfl⟩ := List.mem_map.mp there
    have goes := h.queue was stood
    cases was with
    | relay w outcome => exact goes
    | run v signal next =>
      simp only [struck]
      split <;> exact goes

end Mind

namespace Owed

theorem of_queue {s' : Schedule σ} (h : s.Owed flag) (state : s'.state = s.state)
    (queue : ∀ turn ∈ s.queue, turn ∈ s'.queue) : s'.Owed flag := by
  intro up
  obtain ⟨turn, there, owes⟩ := h (state ▸ up)
  exact ⟨turn, queue turn there, state ▸ owes⟩

theorem changed (h : s.Owed flag) {t : σ} (allowed : flag.law s.state t)
    (stays : flag.up t → flag.up s.state) : Owed flag { s with state := t } := by
  intro up
  obtain ⟨turn, there, owes⟩ := h (stays up)
  exact ⟨turn, there, owes.later (.single allowed)⟩

/-- Whoever is cancelled on its way goes on to the same piece. -/
theorem cancel (h : s.Owed flag) (u : TaskId) : (s.cancel u).Owed flag := by
  intro up
  rw [state_cancel] at up ⊢
  obtain ⟨turn, there, owes⟩ := h up
  obtain ⟨other, w, -, -, eq⟩ | ⟨w, outcome, -, -, eq⟩ | eq := cancel_cases s u <;> rw [eq]
  · exact ⟨turn, List.mem_append_left _ there, owes⟩
  · refine ⟨turn, List.mem_append_left _ (List.mem_filter.mpr ⟨there, ?_⟩), owes⟩
    cases turn with
    | run v signal next => rfl
    | relay v told => exact owes.elim
  · refine ⟨struck u turn, List.mem_map_of_mem there, ?_⟩
    cases turn with
    | run v signal next =>
      simp only [struck]
      split <;> exact owes
    | relay v told => exact owes.elim

end Owed

/-- A turn of a process on its way: it stands in the queue and is still on its way, or comes to the piece
that takes the flag down. -/
theorem Mind.drive_towards (others : s.Mind flag) {C : Process σ → σ → Prop} (way : flag.ways C)
    (lowers : ∀ q t, C q t → q.Minds flag true t) {p : Process σ}
    (towards : p.Towards flag.law C s.state) (task : TaskId)
    (goes : ∀ q t, C q t → ∀ s' : Schedule σ, s'.state = t → s'.Mind flag →
      (drive task q s').Mind flag ∧ (drive task q s').Owed flag) :
    (drive task p s).Mind flag ∧ (drive task p s).Owed flag := by
  generalize now : s.state = state at towards
  induction towards generalizing s with
  | there here => exact goes _ _ here s now others
  | get _ ih =>
    subst now
    exact ih others rfl
  | @set p _ t allowed _ ih =>
    subst now
    exact ih (s := { s with state := t }) (others.changed allowed) rfl
  | ask _ ih =>
    subst now
    exact ih _ _ .refl others rfl
  | @pause next _ towards _ =>
    subst now
    have owes : (Turn.run task (.ok ()) next).Owes flag s.state := ⟨C, way, lowers, towards⟩
    exact ⟨others.enqueue owes.minds, fun _ => ⟨_, List.mem_append_right _ (.head _), owes⟩⟩

/-- A turn of a process that minds the flag: by induction on the process. One that is lowering it owes
nothing afterwards. -/
theorem Mind.drive (others : s.Mind flag) {lowering : Bool} (owed : lowering = false → s.Owed flag)
    {p : Process σ} (h : p.Minds flag lowering s.state) (task : TaskId) :
    (drive task p s).Mind flag ∧ (drive task p s).Owed flag := by
  generalize now : s.state = state at h
  induction h generalizing s with
  | done r _ =>
    exact ⟨others.settle task r, (owed rfl).of_queue rfl fun _ there => List.mem_append_left _ there⟩
  | get _ ih =>
    subst now
    exact ih others owed rfl
  | @set _ p _ t allowed stays _ ih =>
    subst now
    exact ih (s := { s with state := t }) (others.changed allowed)
      (fun free => (owed free).changed allowed (stays free)) rfl
  | ask _ ih =>
    subst now
    exact ih _ _ .refl others owed rfl
  | pause goes _ =>
    subst now
    exact ⟨others.enqueue goes, (owed rfl).of_queue rfl fun _ there => List.mem_append_left _ there⟩
  | @spawn body next _ begins _ _ ih =>
    subst now
    have begun : (Turn.run s.outcomes.size (.ok ()) (begin (body s.outcomes.size))).Minds flag
        s.state := by
      intro signal t later
      cases signal with
      | ok _ => exact begins _ t later
      | error e => exact .done _ t
    rw [Schedule.drive_spawn]
    refine ih s.outcomes.size ?_ (fun _ => ?_) rfl
    · exact Mind.enqueue ⟨others.queue, others.waiting⟩ begun
    · exact (owed rfl).of_queue rfl fun _ there => List.mem_append_left _ there
  | @join u next _ goes ih =>
    subst now
    cases settled : (s.outcomes[u]?).join with
    | some outcome =>
      simp only [Schedule.drive, settled]
      exact ih _ _ .refl others owed rfl
    | none =>
      simp only [Schedule.drive, settled]
      refine ⟨⟨others.queue, fun e there => ?_⟩, (owed rfl).of_queue rfl fun _ there => there⟩
      rcases List.mem_append.mp there with old | new
      · exact others.waiting e old
      · obtain rfl := List.mem_singleton.mp new
        exact goes
  | @cancel u p _ _ ih =>
    exact ih (s := s.cancel u) (others.cancel u) (fun free => (owed free).cancel u)
      ((s.state_cancel u).trans now)
  | raise way towards lowers ih =>
    subst now
    refine others.drive_towards way lowers towards task fun q t here s' now' others' => ?_
    exact ih q t here others' (by simp) now'
  | lowered down _ ih =>
    subst now
    exact ih others (fun _ up => absurd up down) rfl

/-- While the flag is up, some task is on its way to take it down, if all that is launched minds the
flag in the states that may come about. -/
theorem Arises.owed {launches : Process σ → Prop} {start : σ} {past : List σ} {s : Schedule σ}
    (arises : Arises launches start past s) (down : ¬ flag.up start)
    (minds : ∀ p, launches p → ∀ t, ReflTransGen flag.law start t → p.Minds flag false t) :
    s.Mind flag ∧ s.Owed flag := by
  have reached {past : List σ} {s : Schedule σ} (arises : Arises launches start past s) :
      ReflTransGen flag.law start s.state :=
    (arises.by_law fun p launched t later => (minds p launched t later).abides).2.reached
  induction arises with
  | idle => exact ⟨⟨List.forall_mem_nil _, List.forall_mem_nil _⟩, fun up => absurd up down⟩
  | @launch past s p before launched ih =>
    obtain ⟨others, owed⟩ := ih
    have added : Mind flag { s with outcomes := s.outcomes.push none } :=
      ⟨others.queue, others.waiting⟩
    exact added.drive (fun _ => owed) (minds p launched s.state (reached before)) s.outcomes.size
  | @turn past s before after turn _ taken ih =>
    obtain ⟨others, owed⟩ := ih
    have still {other : Turn σ} (there : other ∈ before ++ after) : other ∈ s.queue := by
      rw [taken]
      rcases List.mem_append.mp there with old | new
      · exact List.mem_append_left _ old
      · exact List.mem_append_right _ (.tail _ new)
    have rest : Mind flag { s with queue := before ++ after } :=
      ⟨fun other there => others.queue other (still there), others.waiting⟩
    have goes : turn.Minds flag s.state := others.queue turn (by simp [taken])
    -- The turn that is taken may be the one that is owed.
    by_cases left : Owed flag { s with queue := before ++ after }
    · cases turn with
      | run u signal next =>
        exact rest.drive (fun _ => left) (goes signal s.state .refl) u
      | relay w outcome =>
        exact ⟨rest.enqueue (minds_wake goes outcome),
          left.of_queue rfl fun _ there => List.mem_append_left _ there⟩
    · have owes : turn.Owes flag s.state := by
        by_contra none
        refine left fun up => ?_
        obtain ⟨other, there, owes⟩ := owed up
        refine ⟨other, ?_, owes⟩
        rw [taken] at there
        rcases List.mem_append.mp there with old | new
        · exact List.mem_append_left _ old
        · rcases List.mem_cons.mp new with rfl | new
          · exact absurd owes none
          · exact List.mem_append_right _ new
      cases turn with
      | run u signal next =>
        obtain ⟨C, way, lowers, towards⟩ := owes
        refine rest.drive_towards way lowers (towards signal s.state .refl) u ?_
        intro q t here s' now others'
        have lowering : q.Minds flag true s'.state := now ▸ lowers q t here
        exact others'.drive (by simp) lowering u
      | relay w outcome => exact owes.elim
  | @cancel past s u _ ih => exact ⟨ih.1.cancel u, ih.2.cancel u⟩

end Schedule

end Relata
