import Relata.Proofs.Process.Within

/-!
What a process comes to beside others. While it waits, the others may change the state, but only as
they are relied upon to; it keeps within a guarantee itself. Two processes go the same way if,
whatever the others do, they hand over the same statements, make the same changes and come to the
same results, however they read the state in between. What an action comes to is then its going the
same way as itself, with a condition on the results and states in which it may end.
-/

namespace Relata

/-- What a process and those beside it keep to: each change of its own is in `guar`, what the others
do while it waits is in `rely`, and wherever it waits `waits` holds. -/
structure Pact (σ : Type) where
  guar : σ → σ → Prop
  rely : σ → σ → Prop
  waits : σ → Prop

/-- Nothing is done for good or bad by standing still, and a condition to wait under is kept by what
the others do. -/
structure Pact.Lawful {σ : Type} (pact : Pact σ) : Prop where
  guar_refl : ∀ s, pact.guar s s
  guar_trans : ∀ {s t u}, pact.guar s t → pact.guar t u → pact.guar s u
  rely_refl : ∀ s, pact.rely s s
  rely_trans : ∀ {s t u}, pact.rely s t → pact.rely t u → pact.rely s u
  waits_rely : ∀ {s t}, pact.waits s → pact.rely s t → pact.waits t

namespace Process

variable {σ α β : Type} {pact : Pact σ}

/-- Two processes that go the same way from a state on and come to the pieces `last` and `last'`
together, with a result and a state of `Q`. -/
inductive Alike (pact : Pact σ) (last last' : Except Error α → Process σ)
    (Q : Except Error α → σ → Prop) : Process σ → Process σ → σ → Prop
  | ends {r : Except Error α} {s : σ} : Q r s → Alike pact last last' Q (last r) (last' r) s
  | left {next : σ → Process σ} {p : Process σ} {s : σ} :
    Alike pact last last' Q (next s) p s → Alike pact last last' Q (.get next) p s
  | right {next : σ → Process σ} {p : Process σ} {s : σ} :
    Alike pact last last' Q p (next s) s → Alike pact last last' Q p (.get next) s
  | change {p q : Process σ} {s t : σ} : pact.guar s t →
    Alike pact last last' Q p q t → Alike pact last last' Q (.set t p) (.set t q) s
  | ask {r : Request} {next next' : Except Error (List Row) → Process σ} {s : σ} : pact.waits s →
    (∀ rows s', pact.rely s s' → Alike pact last last' Q (next rows) (next' rows) s') →
      Alike pact last last' Q (.ask r next) (.ask r next') s

theorem Alike.trans {last last' : Except Error α → Process σ} {Q : Except Error α → σ → Prop}
    {later later' : Except Error β → Process σ} {Q' : Except Error β → σ → Prop}
    {p q : Process σ} {s : σ} (h : Alike pact last last' Q p q s)
    (hl : ∀ r s', Q r s' → Alike pact later later' Q' (last r) (last' r) s') :
    Alike pact later later' Q' p q s := by
  induction h with
  | ends hq => exact hl _ _ hq
  | left _ ih => exact .left ih
  | right _ ih => exact .right ih
  | change allowed _ ih => exact .change allowed ih
  | ask waits _ ih => exact .ask waits ih

/-- A task that waits for its turns only and comes to the piece `last`, with a result and a state
of `Q`. -/
inductive Along (pact : Pact σ) (last : Except Error α → Process σ)
    (Q : Except Error α → σ → Prop) : Process σ → σ → Prop
  | ends {r : Except Error α} {s : σ} : Q r s → Along pact last Q (last r) s
  | get {next : σ → Process σ} {s : σ} :
    Along pact last Q (next s) s → Along pact last Q (.get next) s
  | change {p : Process σ} {s t : σ} : pact.guar s t → Along pact last Q p t →
    Along pact last Q (.set t p) s
  | pause {next : Except Error Unit → Process σ} {s : σ} : pact.waits s →
    (∀ s', pact.rely s s' → Along pact last Q (next (.ok ())) s') →
      Along pact last Q (.pause next) s

/-- A process that may take any number of turns before it goes on to `last`, and in the meantime
does nothing but what the others may do too. -/
inductive Aside (pact : Pact σ) (last : Except Error α → Process σ) : Process σ → Prop
  | ends (r : Except Error α) : Aside pact last (last r)
  | get {next : σ → Process σ} : (∀ s, Aside pact last (next s)) → Aside pact last (.get next)
  | change {f : σ → σ} {next : σ → Process σ} :
    (∀ s, pact.rely s (f s) ∧ pact.guar s (f s)) → (∀ s, Aside pact last (next s)) →
      Aside pact last (.get fun s => .set (f s) (next s))
  | pause {next : Except Error Unit → Process σ} :
    (∀ signal, Aside pact last (next signal)) → Aside pact last (.pause next)

/-- What answers a statement does so aside. -/
def Answers (pact : Pact σ) (runner : Request → Act σ (List Row)) : Prop :=
  ∀ r last, Aside pact last (runner r last)

/-- Whoever answers aside of much answers aside of more. -/
theorem Aside.mono {pact' : Pact σ} {last : Except Error α → Process σ} {p : Process σ}
    (h : Aside pact last p) (rely : ∀ {s t}, pact.rely s t → pact'.rely s t)
    (guar : ∀ {s t}, pact.guar s t → pact'.guar s t) : Aside pact' last p := by
  induction h with
  | ends r => exact .ends r
  | get _ ih => exact .get ih
  | change allowed _ ih => exact .change (fun s => ⟨rely (allowed s).1, guar (allowed s).2⟩) ih
  | pause _ ih => exact .pause ih

/-- Whoever answers aside leaves what comes after as it was, in the states that the others may
leave behind: by induction on the turns taken for it. -/
theorem Aside.along (lawful : pact.Lawful) {last : Except Error β → Process σ}
    {later : Except Error α → Process σ} {Q : Except Error α → σ → Prop} {p : Process σ}
    (h : Aside pact last p) {s : σ} (waits : pact.waits s)
    (next : ∀ r s', pact.rely s s' → Along pact later Q (last r) s') : Along pact later Q p s := by
  induction h generalizing s with
  | ends r => exact next r s (lawful.rely_refl s)
  | get _ ih => exact .get (ih s waits next)
  | change allowed _ ih =>
    refine .get (.change (allowed s).2 (ih s (lawful.waits_rely waits (allowed s).1) ?_))
    exact fun r s' rely => next r s' (lawful.rely_trans (allowed s).1 rely)
  | pause _ ih =>
    refine .pause waits fun s' rely => ih _ (lawful.waits_rely waits rely) ?_
    exact fun r s'' more => next r s'' (lawful.rely_trans rely more)

/-- Once its statements are answered, the first of two processes that go the same way is a task that
comes to its last piece. -/
theorem Alike.answered (lawful : pact.Lawful) {last last' : Except Error α → Process σ}
    {Q : Except Error α → σ → Prop} {p q : Process σ} {s : σ} (h : Alike pact last last' Q p q s)
    {runner : Request → Act σ (List Row)} (answers : Answers pact runner) :
    Along pact (fun r => (last r).answered runner) Q (p.answered runner) s := by
  induction h with
  | ends hq => exact .ends hq
  | left _ ih => exact .get ih
  | right _ ih => exact ih
  | change allowed _ ih => exact .change allowed ih
  | ask waits _ ih => exact (answers _ _).along lawful waits ih

/-- A turn of such a task: after changes that it guarantees it has come to its last piece, or it
stands in the queue again. -/
theorem Along.drive (lawful : pact.Lawful) {last : Except Error α → Process σ}
    {Q : Except Error α → σ → Prop} {p : Process σ} {w : σ} (h : Along pact last Q p w)
    (task : TaskId) (s : Schedule σ) (here : s.state = w) :
    (∃ r w', Q r w' ∧ pact.guar w w' ∧
      Schedule.drive task p s = Schedule.drive task (last r) { s with state := w' }) ∨
    ∃ next w', pact.waits w' ∧ pact.guar w w' ∧
      (∀ w'', pact.rely w' w'' → Along pact last Q (next (.ok ())) w'') ∧
      Schedule.drive task p s =
        Schedule.enqueue { s with state := w' } (.run task (.ok ()) next) := by
  induction h generalizing s with
  | @ends r w hq => exact .inl ⟨r, w, hq, lawful.guar_refl w, by rw [← here]⟩
  | get _ ih =>
    rw [Schedule.drive, here]
    exact ih s here
  | @change p w t allowed _ ih =>
    rw [Schedule.drive]
    obtain ⟨r, w', hq, kept, eq⟩ | ⟨next, w', waits, kept, along, eq⟩ := ih { s with state := t } rfl
    · exact .inl ⟨r, w', hq, lawful.guar_trans allowed kept, eq⟩
    · exact .inr ⟨next, w', waits, lawful.guar_trans allowed kept, along, eq⟩
  | @pause next w waits along _ =>
    exact .inr ⟨next, w, waits, lawful.guar_refl w, along, by rw [Schedule.drive, ← here]⟩

/-- A process that comes to another one by reading the state, and nothing else. -/
inductive Reads (s : σ) : Process σ → Process σ → Prop
  | refl (p : Process σ) : Reads s p p
  | get {next : σ → Process σ} {p : Process σ} : Reads s (next s) p → Reads s (.get next) p

theorem Reads.trans {s : σ} {p q r : Process σ} (h : Reads s p q) (h' : Reads s q r) :
    Reads s p r := by
  induction h with
  | refl => exact h'
  | get _ ih => exact .get (ih h')

/-- What two processes come to by reading goes the same way only if they do. -/
theorem Alike.of_reads {last last' : Except Error α → Process σ} {Q : Except Error α → σ → Prop}
    {p p' q q' : Process σ} {s : σ} (left : Reads s p p') (right : Reads s q q')
    (h : Alike pact last last' Q p' q' s) : Alike pact last last' Q p q s := by
  induction left with
  | refl =>
    induction right with
    | refl => exact h
    | get _ ih => exact .right (ih h)
  | get _ ih => exact .left (ih h)

/-- A process that comes to another one within a turn: driven as any task, it does what the other
one does in a later state. -/
def Glides (runner : Request → Act σ (List Row)) (p : Process σ) (w : σ) (q : Process σ) (w' : σ) :
    Prop :=
  ∀ (task : TaskId) (s : Schedule σ), s.state = w →
    Schedule.drive task (p.answered runner) s =
      Schedule.drive task (q.answered runner) { s with state := w' }

namespace Glides

variable {runner : Request → Act σ (List Row)} {p q r : Process σ} {w w' w'' : σ}

theorem refl (p : Process σ) (w : σ) : Glides runner p w p w := fun _ s here => by
  rw [← here]

theorem trans (h : Glides runner p w q w') (h' : Glides runner q w' r w'') :
    Glides runner p w r w'' := fun task s here => (h task s here).trans (h' task _ rfl)

end Glides

end Process

namespace Act

variable {σ α β : Type} {pact : Pact σ} {s : σ}

/-- Two actions that go the same way from a state on, and what they come to. -/
def Meets (pact : Pact σ) (x y : Act σ α) (s : σ) (Q : Except Error α → σ → Prop) : Prop :=
  ∀ last last', Process.Alike pact last last' Q (x last) (y last') s

/-- What an action comes to from a state on. -/
abbrev Ends (pact : Pact σ) (x : Act σ α) (s : σ) (Q : Except Error α → σ → Prop) : Prop :=
  Meets pact x x s Q

namespace Meets

variable {x y : Act σ α} {Q Q' : Except Error α → σ → Prop}

theorem imp (h : Meets pact x y s Q) (hq : ∀ r s', Q r s' → Q' r s') : Meets pact x y s Q' :=
  fun last last' => (h last last').trans fun r s' there => .ends (hq r s' there)

theorem ofExcept {r : Except Error α} (h : Q r s) :
    Meets pact (Act.ofExcept r) (Act.ofExcept r) s Q := fun _ _ => .ends h

theorem pure {a : α} (h : Q (.ok a) s) :
    Meets pact (Pure.pure a : Act σ α) (Pure.pure a) s Q := ofExcept h

theorem throw {e : Error} (h : Q (.error e) s) :
    Meets pact (MonadExcept.throw e : Act σ α) (MonadExcept.throw e) s Q := ofExcept h

theorem bind {f g : α → Act σ β} {P : Except Error β → σ → Prop} (h : Meets pact x y s Q)
    (hf : ∀ a s', Q (.ok a) s' → Meets pact (f a) (g a) s' P)
    (he : ∀ e s', Q (.error e) s' → P (.error e) s') : Meets pact (x >>= f) (y >>= g) s P := by
  refine fun last last' => (h _ _).trans fun r s' there => ?_
  cases r with
  | ok a => exact hf a s' there last last'
  | error e => exact .ends (he e s' there)

theorem attempt {Q : Except Error (Except Error α) → σ → Prop}
    (h : Meets pact x y s fun r => Q (.ok r)) : Meets pact x.attempt y.attempt s Q :=
  fun _ _ => (h _ _).trans fun _ _ there => .ends there

theorem getsExcept {f : σ → Except Error α} (h : Q (f s) s) :
    Meets pact (Act.getsExcept f) (Act.getsExcept f) s Q := fun _ _ => .left (.right (.ends h))

/-- Reads that come to the same, each in its own way. -/
theorem getsExcept_congr {f g : σ → Except Error α} (same : f s = g s) (h : Q (f s) s) :
    Meets pact (Act.getsExcept f) (Act.getsExcept g) s Q := fun _ _ =>
  .left (.right (same ▸ .ends h))

/-! What follows a result or a read. -/

theorem ofExcept_bind {r : Except Error β} {f g : β → Act σ α}
    (h : ∀ b, r = .ok b → Meets pact (f b) (g b) s Q) (he : ∀ e, r = .error e → Q (.error e) s) :
    Meets pact (Act.ofExcept r >>= f) (Act.ofExcept r >>= g) s Q := by
  cases r with
  | ok b => exact h b rfl
  | error e => exact fun _ _ => .ends (he e rfl)

theorem getsExcept_bind {r : σ → Except Error β} {f g : β → Act σ α}
    (h : ∀ b, r s = .ok b → Meets pact (f b) (g b) s Q) (he : ∀ e, r s = .error e → Q (.error e) s) :
    Meets pact (Act.getsExcept r >>= f) (Act.getsExcept r >>= g) s Q := fun last last' =>
  .left (.right (ofExcept_bind h he last last'))

theorem gets_bind {r : σ → β} {f g : β → Act σ α} (h : Meets pact (f (r s)) (g (r s)) s Q) :
    Meets pact (Act.gets r >>= f) (Act.gets r >>= g) s Q := fun last last' =>
  .left (.right (h last last'))

theorem modifyGet {f : σ → α × σ} (allowed : pact.guar s (f s).2) (h : Q (.ok (f s).1) (f s).2) :
    Meets pact (Act.modifyGet f) (Act.modifyGet f) s Q :=
  fun _ _ => .left (.right (.change allowed (.ends h)))

theorem modify {f : σ → σ} {Q : Except Error Unit → σ → Prop} (allowed : pact.guar s (f s))
    (h : Q (.ok ()) (f s)) : Meets pact (Act.modify f) (Act.modify f) s Q :=
  fun _ _ => .left (.right (.change allowed (.ends h)))

theorem ask {r : Request} {Q : Except Error (List Row) → σ → Prop} (waits : pact.waits s)
    (h : ∀ rows s', pact.rely s s' → Q rows s') :
    Meets pact (Act.ask r) (Act.ask r) s Q :=
  fun _ _ => .ask waits fun rows s' rely => .ends (h rows s' rely)

/-- Two loops go the same way if their bodies do, item by item, and what holds after a part of the
items holds wherever they break off. -/
theorem forM_parts {xs : List α} {f g : α → Act σ PUnit} {I : List α → σ → Prop} (start : I [] s)
    (body : ∀ before a after, xs = before ++ a :: after → ∀ s, I before s →
      Meets pact (f a) (g a) s fun
        | .ok _ => I (before ++ [a])
        | .error _ => I before) :
    Meets pact (xs.forM f) (xs.forM g) s fun
      | .ok _ => I xs
      | .error _ => fun t => ∃ before a after, xs = before ++ a :: after ∧ I before t := by
  suffices ∀ rest before s, xs = before ++ rest → I before s →
      Meets pact (rest.forM f) (rest.forM g) s fun
        | .ok _ => I xs
        | .error _ => fun t => ∃ before a after, xs = before ++ a :: after ∧ I before t from
    this xs [] s rfl start
  intro rest
  induction rest with
  | nil => exact fun before s whole there => pure (by rwa [whole, List.append_nil])
  | cons a rest ih =>
    intro before s whole there
    refine (body before a rest whole s there).bind (fun _ t later => ?_) fun _ t later =>
      ⟨before, a, rest, whole, later⟩
    exact ih (before ++ [a]) t (by rw [whole, List.append_assoc, List.singleton_append]) later

/-- A loop keeps an invariant if its body does, item by item. -/
theorem forM {xs : List α} {f : α → Act σ PUnit} {I : σ → Prop}
    {E : Error → σ → Prop} (start : I s)
    (body : ∀ a ∈ xs, ∀ s, I s → Ends pact (f a) s fun
      | .ok _ => I
      | .error e => E e) :
    Ends pact (xs.forM f) s fun
      | .ok _ => I
      | .error e => E e := by
  induction xs generalizing s with
  | nil => exact pure start
  | cons a rest ih =>
    refine (body a (.head _) s start).bind (fun _ s' there => ?_) fun e s' there => there
    exact ih there fun b hb => body b (.tail _ hb)

/-- A loop does for each item what its body does for it, if what is done for one item is not undone
by what is done for another. -/
theorem forM_each {xs : List α} {f : α → Act σ PUnit} {R : σ → σ → Prop} {D : α → σ → Prop}
    {start : σ} (refl : ∀ s, R s s) (trans : ∀ {s t u}, R s t → R t u → R s u)
    (keep : ∀ a ∈ xs, ∀ {s t}, R start s → D a s → R s t → D a t)
    (body : ∀ a ∈ xs, ∀ s, R start s →
      Ends pact (f a) s fun r t => R s t ∧ (r = .ok () → D a t)) :
    Ends pact (xs.forM f) start fun r t => R start t ∧ (r = .ok () → ∀ a ∈ xs, D a t) := by
  suffices ∀ s, R start s →
      Ends pact (xs.forM f) s fun r t => R s t ∧ (r = .ok () → ∀ a ∈ xs, D a t) from
    this start (refl start)
  induction xs with
  | nil => exact fun s _ => pure ⟨refl s, fun _ => List.forall_mem_nil _⟩
  | cons a rest ih =>
    intro s begun
    refine (body a (.head _) s begun).bind (fun _ t there => ?_) fun e t there =>
      ⟨there.1, fun absurd => nomatch absurd⟩
    have later := trans begun there.1
    refine (ih (fun b hb => keep b (.tail _ hb)) (fun b hb => body b (.tail _ hb)) t later).imp
      fun r u then_ => ?_
    refine ⟨trans there.1 then_.1, fun ended => List.forall_mem_cons.mpr ⟨?_, then_.2 ended⟩⟩
    exact keep a (.head _) later (there.2 rfl) then_.1

/-- What is read for each item is read at once. -/
theorem mapM_reads {xs : List α} {f : α → σ → Except Error β} :
    Ends pact (xs.mapM fun a => Act.getsExcept (f a)) s fun r t => t = s ∧ ∀ bs, r = .ok bs →
      (∀ a ∈ xs, ∃ b ∈ bs, f a s = .ok b) ∧ ∀ b ∈ bs, ∃ a ∈ xs, f a s = .ok b := by
  induction xs with
  | nil => exact pure ⟨rfl, fun _ same => Except.ok.inj same ▸ by simp⟩
  | cons a rest ih =>
    rw [List.mapM_cons]
    refine getsExcept_bind (fun b read => ih.bind (fun bs t there => ?_) fun e t there =>
      ⟨there.1, fun _ absurd => nomatch absurd⟩) fun e _ => ⟨rfl, fun _ absurd => nomatch absurd⟩
    obtain ⟨each, only⟩ := there.2 bs rfl
    refine pure ⟨there.1, fun _ same => Except.ok.inj same ▸ ⟨?_, ?_⟩⟩
    · refine List.forall_mem_cons.mpr ⟨⟨b, .head _, read⟩, fun a' h => ?_⟩
      exact (each a' h).imp fun _ own => ⟨.tail _ own.1, own.2⟩
    · refine List.forall_mem_cons.mpr ⟨⟨a, .head _, read⟩, fun b' h => ?_⟩
      exact (only b' h).imp fun _ own => ⟨.tail _ own.1, own.2⟩

end Meets

theorem ofExcept_ok_bind (a : α) (f : α → Act σ β) : Act.ofExcept (.ok a) >>= f = f a := rfl

/-- An action that comes to another one by reading the state. -/
def Reads (x y : Act σ α) (s : σ) : Prop := ∀ last, Process.Reads s (x last) (y last)

namespace Reads

variable {x y z : Act σ α}

theorem refl (x : Act σ α) (s : σ) : x.Reads x s := fun last => .refl (x last)

theorem trans (h : x.Reads y s) (h' : y.Reads z s) : x.Reads z s := fun last =>
  (h last).trans (h' last)

theorem bind (h : x.Reads y s) (f : α → Act σ β) : (x >>= f).Reads (y >>= f) s := fun _ => h _

theorem getsExcept (f : σ → Except Error α) (s : σ) :
    (Act.getsExcept f).Reads (Act.ofExcept (f s)) s := fun _ => .get (.refl _)

/-- What is read and found is used. -/
theorem getsExcept_bind {f : σ → Except Error α} {a : α} (h : f s = .ok a) (k : α → Act σ β) :
    (Act.getsExcept f >>= k).Reads (k a) s := fun last => .get (by rw [h]; exact .refl _)

theorem gets_bind (f : σ → α) (k : α → Act σ β) (s : σ) : (Act.gets f >>= k).Reads (k (f s)) s :=
  fun _ => .get (.refl _)

/-- Actions go the same way if what they come to by reading does. -/
theorem meets {x' y' : Act σ α} {Q : Except Error α → σ → Prop} (left : x.Reads x' s)
    (right : y.Reads y' s) (h : Meets pact x' y' s Q) : Meets pact x y s Q := fun last last' =>
  (h last last').of_reads (left last) (right last')

end Reads

/-- Whatever result an action has is one of `P`: what comes after any other makes no difference. -/
def Yields (x : Act σ α) (P : α → Prop) : Prop :=
  ∀ next next' : Except Error α → Process σ, (∀ e, next (.error e) = next' (.error e)) →
    (∀ a, P a → next (.ok a) = next' (.ok a)) → x next = x next'

namespace Yields

variable {P : α → Prop} {Q : β → Prop}

theorem ofExcept {r : Except Error α} (h : ∀ a, r = .ok a → P a) :
    (Act.ofExcept r : Act σ α).Yields P := by
  intro next next' errors values
  cases r with
  | ok a => exact values a (h a rfl)
  | error e => exact errors e

theorem any (x : Act σ α) : x.Yields fun _ => True := fun _ _ errors values =>
  congrArg x (funext fun r => by cases r with
    | ok a => exact values a trivial
    | error e => exact errors e)

theorem imp {x : Act σ α} {P' : α → Prop} (h : x.Yields P) (hp : ∀ a, P a → P' a) : x.Yields P' :=
  fun next next' errors values => h next next' errors fun a ha => values a (hp a ha)

theorem bind {x : Act σ α} {f : α → Act σ β} (hx : x.Yields P) (hf : ∀ a, P a → (f a).Yields Q) :
    (x >>= f).Yields Q := fun next next' errors values =>
  hx _ _ errors fun a ha => hf a ha next next' errors values

/-- What follows a result that an action does not have may as well be anything else. -/
theorem bind_congr {x : Act σ α} {f g : α → Act σ β} (hx : x.Yields P)
    (agree : ∀ a, P a → f a = g a) : x >>= f = x >>= g :=
  funext fun next => hx _ _ (fun _ => rfl) fun a ha => congrFun (agree a ha) next

theorem attempt {x : Act σ α} (hx : x.Yields P) :
    x.attempt.Yields fun r => ∀ a, r = .ok a → P a := fun _ _ _ values =>
  hx _ _ (fun e => values (.error e) fun _ absurd => nomatch absurd) fun a ha =>
    values (.ok a) fun _ same => Except.ok.inj same ▸ ha

theorem getsExcept {f : σ → Except Error α} (h : ∀ s a, f s = .ok a → P a) :
    (Act.getsExcept f).Yields P := fun next next' errors values =>
  congrArg Process.get (funext fun s => ofExcept (h s) next next' errors values)

end Yields

/-- A read, or a change of the state, within a turn. -/
def Glides (runner : Request → Act σ (List Row)) (x : Act σ α) (w : σ) (r : Except Error α)
    (w' : σ) : Prop :=
  ∀ next, Process.Glides runner (x next) w (next r) w'

namespace Glides

variable {runner : Request → Act σ (List Row)} {w w' w'' : σ}

theorem getsExcept (f : σ → Except Error α) : (Act.getsExcept f).Glides runner w (f w) w := by
  rintro next task s rfl
  rfl

theorem gets (f : σ → α) : (Act.gets f).Glides runner w (.ok (f w)) w := by
  rintro next task s rfl
  rfl

theorem ofExcept (r : Except Error α) : (Act.ofExcept r).Glides runner w r w := by
  rintro next task s rfl
  rfl

theorem pure (a : α) : (Pure.pure a : Act σ α).Glides runner w (.ok a) w := ofExcept (.ok a)

theorem modify (f : σ → σ) : (Act.modify f).Glides runner w (.ok ()) (f w) := by
  rintro next task s rfl
  rfl

theorem modifyGet (f : σ → α × σ) :
    (Act.modifyGet f).Glides runner w (.ok (f w).1) (f w).2 := by
  rintro next task s rfl
  rfl

theorem bind {x : Act σ α} {f : α → Act σ β} {a : α} {r : Except Error β}
    (h : x.Glides runner w (.ok a) w') (hf : (f a).Glides runner w' r w'') :
    (x >>= f).Glides runner w r w'' := fun next => (h _).trans (hf next)

/-- What comes after a piece that glides. -/
theorem then_ {x : Act σ α} {f : α → Act σ β} {a : α} (h : x.Glides runner w (.ok a) w')
    {next : Except Error β → Process σ} {q : Process σ}
    (rest : Process.Glides runner (f a next) w' q w'') :
    Process.Glides runner ((x >>= f) next) w q w'' := (h _).trans rest

end Glides

end Act

end Relata
