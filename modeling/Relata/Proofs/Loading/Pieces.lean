import Relata.Proofs.Loading.Made
import Relata.Proofs.Process.Goes

/-!
Runs of what loading is made of, taken apart. A deed that nobody disturbs goes on in one way only, given
what its statements are answered with; so a run of one deed after another is a run of the first and
then one of the second, if the first is made of the pieces of loading.
-/

namespace Relata

open Process (Goes)
open Act (Runs)

variable {σ τ : Type} {α β : Type}

/-- Answered alike, a process comes to one end only. -/
theorem Process.Goes.unique {p : Process σ} {s t u : σ} {sent sent' whole : Dialogue}
    {o o' : Except Error Value} (h : Goes Eq p s sent (.done o) t) (h' : Goes Eq p s sent' (.done o') u)
    (part : sent <+: whole) (part' : sent' <+: whole) : sent = sent' ∧ o = o' ∧ t = u := by
  generalize ended : Process.done o = q at h
  induction h generalizing sent' whole with
  | rest =>
    subst ended
    cases h'
    exact ⟨rfl, rfl, rfl⟩
  | get _ ih =>
    cases h' with
    | get h' => exact ih h' part part' ended
  | set _ ih =>
    cases h' with
    | set h' => exact ih h' part part' ended
  | @ask _ _ _ _ _ rows _ _ same _ ih =>
    subst same
    cases h' with
    | ask same' h' =>
      subst same'
      obtain ⟨rest, rfl⟩ := part
      obtain ⟨others, joined⟩ := part'
      simp only [List.cons_append, List.cons.injEq, Prod.mk.injEq, true_and] at joined
      obtain ⟨rfl, joined⟩ := joined
      obtain ⟨rfl, rfl, rfl⟩ := ih h' (List.prefix_append _ _) ⟨others, joined⟩ ended
      exact ⟨rfl, rfl, rfl⟩

/-- A process that has read what there is goes on the same way. -/
theorem Process.Goes.reads {p p' : Process σ} {s t : σ} {sent : Dialogue} {o : Except Error Value}
    (same : Process.Reads s p p') (h : Goes Eq p s sent (.done o) t) : Goes Eq p' s sent (.done o) t := by
  induction same with
  | refl => exact h
  | get _ ih =>
    cases h with
    | get h => exact ih h

namespace Act

/-- Whatever comes to an end after the result comes to it after the action. -/
def Carries (x : Act σ α) (s : σ) (sent : Dialogue) (r : Except Error α) (t : σ) : Prop :=
  ∀ next later o u, Goes Eq (next r) t later (.done o) u → Goes Eq (x next) s (sent ++ later) (.done o) u

variable {x : Act σ α} {s t u : σ} {sent sent' : Dialogue} {r r' : Except Error α}

theorem Runs.carries (h : Runs Eq x s sent r t) : Carries x s sent r t :=
  fun next _ _ _ goes => (h next).trans goes

theorem Carries.reads {y : Act σ α} (same : x.Reads y s) (h : Carries x s sent r t) :
    Carries y s sent r t := fun next later o u goes => (h next later o u goes).reads (same next)

theorem Carries.unique {whole : Dialogue} (h : Carries x s sent r t) (h' : Carries x s sent' r' u)
    (part : sent <+: whole) (part' : sent' <+: whole) : sent = sent' ∧ r = r' ∧ t = u := by
  classical
  let next : Except Error α → Process σ := fun a => .done (if a = r then .ok .null else .error .badType)
  have goes := h next [] _ t (.rest _ _)
  have goes' := h' next [] _ u (.rest _ _)
  rw [List.append_nil] at goes goes'
  obtain ⟨rfl, same, rfl⟩ := goes.unique goes' part part'
  refine ⟨rfl, Classical.byContradiction fun other => ?_, rfl⟩
  simp [Ne.symm other] at same

/-- What sends nothing has one result, whatever it is said to send. -/
theorem Carries.silent (h : Carries x s sent r t) (quiet : Runs Eq x s [] r' u) :
    sent = [] ∧ r = r' ∧ t = u := by
  obtain ⟨rfl, rfl, rfl⟩ := quiet.carries.unique h (List.nil_prefix (l := sent)) (List.prefix_refl _)
  exact ⟨rfl, rfl, rfl⟩

end Act

open Act (Carries)
open World (Grows)

namespace Deed

variable {x : Deed τ α} {w t : World τ} {sent : Dialogue} {r : Except Error α}

/-- A run that goes through a deed made of the pieces of loading is a run of the deed first. -/
theorem Made.factors {R : World τ → World τ → Prop} (h : Made R x) (refl : ∀ w, R w w)
    (trans : ∀ {a b c}, R a b → R b c → R a c) {next : Except Error α → Process (World τ)}
    {o : Except Error Value} (goes : Goes Eq (x next) w sent (.done o) t) :
    ∃ first later r w', sent = first ++ later ∧ Runs Eq x w first r w' ∧ R w w' ∧
      Goes Eq (next r) w' later (.done o) t := by
  induction h generalizing w sent with
  | ofExcept r => exact ⟨[], sent, r, w, rfl, .ofExcept r w, refl w, goes⟩
  | bind _ _ ihx ihf =>
    obtain ⟨first, later, r, w', rfl, runs, changed, goes⟩ := ihx goes
    cases r with
    | error e => exact ⟨first, later, _, w', rfl, runs.bind_error _, changed, goes⟩
    | ok a =>
      obtain ⟨second, rest, r, w'', rfl, runs', changed', goes⟩ := ihf a goes
      exact ⟨first ++ second, rest, r, w'', (List.append_assoc ..).symm, runs.bind runs',
        trans changed changed', goes⟩
  | attempt _ ih =>
    obtain ⟨first, later, r, w', same, runs, changed, goes⟩ := ih goes
    exact ⟨first, later, _, w', same, runs.attempt, changed, goes⟩
  | getsExcept f =>
    cases goes with
    | get goes => exact ⟨[], sent, _, w, rfl, .getsExcept f w, refl w, goes⟩
  | modifyGet f change =>
    cases goes with
    | get goes => cases goes with
      | set goes => exact ⟨[], sent, _, _, rfl, .modifyGet f w, change w, goes⟩
  | ask r _ =>
    cases goes with
    | @ask _ _ _ _ _ rows _ _ same goes =>
      subst same
      exact ⟨[(r, rows)], _, rows, w, rfl, .ask r rfl rows, refl w, goes⟩

/-- What is said to come of a deed made of the pieces of loading does come of it. -/
theorem Made.runs_of_carries {R : World τ → World τ → Prop} (h : Made R x) (refl : ∀ w, R w w)
    (trans : ∀ {a b c}, R a b → R b c → R a c) (carries : Carries x w sent r t) :
    Runs Eq x w sent r t ∧ R w t := by
  have goes := carries (fun _ => .done (.ok .null)) [] _ t (.rest _ _)
  rw [List.append_nil] at goes
  obtain ⟨first, later, r', w', rfl, runs, changed, -⟩ := h.factors refl trans goes
  obtain ⟨same, rfl, rfl⟩ := runs.carries.unique carries (List.prefix_append _ later) (List.prefix_refl _)
  exact ⟨same ▸ runs, changed⟩

/-- What is attempted has come to its result. -/
theorem Made.of_attempt (h : Made Grows x) {r : Except Error (Except Error α)}
    (carries : Carries x.attempt w sent r t) : ∃ r', r = .ok r' ∧ Runs Eq x w sent r' t ∧ w.Grows t := by
  have goes := carries (fun _ => .done (.ok .null)) [] _ t (.rest _ _)
  rw [List.append_nil] at goes
  obtain ⟨first, later, r', w', rfl, runs, grows, -⟩ := h.factors Grows.refl Grows.trans goes
  obtain ⟨same, rfl, rfl⟩ := runs.attempt.carries.unique carries (List.prefix_append _ later)
    (List.prefix_refl _)
  exact ⟨r', rfl, same ▸ runs, grows⟩

/-- One deed after another, of which the first is made of the pieces of loading. -/
theorem Made.of_bind (h : Made Grows x) {f : α → Deed τ β} {r : Except Error β}
    (carries : Carries (x >>= f) w sent r t) :
    (∃ e, r = .error e ∧ Runs Eq x w sent (.error e) t ∧ w.Grows t) ∨
      ∃ first later a w', sent = first ++ later ∧ Runs Eq x w first (.ok a) w' ∧ w.Grows w' ∧
        Carries (f a) w' later r t := by
  have goes := carries (fun r => .done (r.map fun _ => .null)) [] _ t (.rest _ _)
  rw [List.append_nil] at goes
  obtain ⟨first, later, r', w', rfl, runs, grows, goes⟩ :=
    h.factors Grows.refl Grows.trans goes
  cases r' with
  | error e =>
    obtain ⟨same, rfl, rfl⟩ := (runs.bind_error f).carries.unique carries
      (List.prefix_append _ later) (List.prefix_refl _)
    exact .inl ⟨e, rfl, same ▸ runs, grows⟩
  | ok a =>
    refine .inr ⟨first, later, a, w', rfl, runs, grows, fun next rest o u ended => ?_⟩
    obtain ⟨first', later', r', w'', joined, runs', -, goes'⟩ :=
      h.factors Grows.refl Grows.trans (carries next rest o u ended)
    have part : first <+: first ++ later ++ rest := by simp [List.append_assoc]
    obtain ⟨rfl, rfl, rfl⟩ := runs.carries.unique runs'.carries part (joined ▸ List.prefix_append _ _)
    rw [List.append_assoc, List.append_cancel_left_eq] at joined
    exact joined ▸ goes'

/-- What follows a result that there is. -/
theorem Made.ok_of_bind (h : Made Grows x) {f : α → Deed τ β} {b : β}
    (carries : Carries (x >>= f) w sent (.ok b) t) :
    ∃ first later a w', sent = first ++ later ∧ Runs Eq x w first (.ok a) w' ∧ w.Grows w' ∧
      Carries (f a) w' later (.ok b) t := by
  obtain ⟨e, absurd, -⟩ | there := h.of_bind carries
  · cases absurd
  · exact there

/-- A result that is there, or an error at once. -/
theorem carries_ofExcept_bind {r : Except Error α} {f : α → Deed τ β} {b : β}
    (carries : Carries (Act.ofExcept r >>= f) w sent (.ok b) t) :
    ∃ a, r = .ok a ∧ Carries (f a) w sent (.ok b) t := by
  cases r with
  | ok a => exact ⟨a, rfl, carries⟩
  | error e =>
    obtain ⟨-, absurd, -⟩ := carries.silent (.ofExcept (.error e) w)
    cases absurd

/-- What is read of the world leaves it alone. -/
theorem of_carries_getsExcept_bind {g : World τ → Except Error α} {f : α → Deed τ β}
    {r : Except Error β} (carries : Carries (Act.getsExcept g >>= f) w sent r t) :
    (∃ e, g w = .error e ∧ r = .error e ∧ sent = [] ∧ t = w) ∨
      ∃ a, g w = .ok a ∧ Carries (f a) w sent r t := by
  have made : Made Grows (Act.getsExcept g) := .getsExcept g
  obtain ⟨e, rfl, runs, -⟩ | ⟨first, later, a, w', rfl, runs, -, rest⟩ := made.of_bind carries
  · obtain ⟨rfl, same, rfl⟩ := runs.carries.silent (.getsExcept g w)
    exact .inl ⟨e, same.symm, rfl, rfl, rfl⟩
  · obtain ⟨rfl, same, rfl⟩ := runs.carries.silent (.getsExcept g w)
    exact .inr ⟨a, same.symm, rest⟩

theorem carries_getsExcept_bind {g : World τ → Except Error α} {f : α → Deed τ β} {b : β}
    (carries : Carries (Act.getsExcept g >>= f) w sent (.ok b) t) :
    ∃ a, g w = .ok a ∧ Carries (f a) w sent (.ok b) t := by
  obtain ⟨e, -, absurd, -⟩ | there := of_carries_getsExcept_bind carries
  · cases absurd
  · exact there

theorem carries_gets_bind {g : World τ → α} {f : α → Deed τ β} {r : Except Error β}
    (carries : Carries (Act.gets g >>= f) w sent r t) : Carries (f (g w)) w sent r t := by
  obtain ⟨e, absurd, -⟩ | ⟨a, same, rest⟩ := of_carries_getsExcept_bind
    (g := fun w => .ok (g w)) carries
  · cases absurd
  · exact Except.ok.inj same ▸ rest

/-- A statement is answered, and nothing else happens. -/
theorem carries_ask {request : Request} {r : Except Error (List Row)}
    (carries : Carries (Act.ask request : Deed τ (List Row)) w sent r t) :
    sent = [(request, r)] ∧ t = w := by
  classical
  have goes := carries (fun a => .done (if a = r then .ok .null else .error .badType)) [] _ t (.rest _ _)
  simp only [List.append_nil, if_true] at goes
  cases goes with
  | @ask _ _ _ _ _ rows _ _ same goes =>
    subst same
    by_cases own : rows = r
    · simp only [own, if_true] at goes
      cases goes
      exact ⟨own ▸ rfl, rfl⟩
    · simp only [own, if_false] at goes
      cases goes

/-- What comes of the items of a list one after the other, with the statements that are sent for each. -/
inductive Stepwise (f : α → Deed τ β) : World τ → List α → List (Dialogue × β) → World τ → Prop
  | nil (w : World τ) : Stepwise f w [] [] w
  | cons {a : α} {rest : List α} {w w' t : World τ} {p : Dialogue × β} {found : List (Dialogue × β)} :
    Runs Eq (f a) w p.1 (.ok p.2) w' → w.Grows w' → Stepwise f w' rest found t →
      Stepwise f w (a :: rest) (p :: found) t

/-- A loop that ends well goes from item to item. -/
theorem Made.stepwise {f : α → Deed τ β} (h : ∀ a, Made Grows (f a)) {xs : List α} {bs : List β}
    (carries : Carries (xs.mapM f) w sent (.ok bs) t) :
    ∃ found, sent = found.flatMap (·.1) ∧ bs = found.map (·.2) ∧ Stepwise f w xs found t := by
  induction xs generalizing w sent bs with
  | nil =>
    obtain ⟨rfl, same, rfl⟩ := carries.silent (.ofExcept (.ok []) w)
    obtain rfl := Except.ok.inj same
    exact ⟨[], rfl, rfl, .nil _⟩
  | cons a rest ih =>
    rw [List.mapM_cons] at carries
    obtain ⟨first, later, b, w', rfl, runs, grows, carries⟩ := (h a).ok_of_bind carries
    obtain ⟨second, last, bs', w'', rfl, runs', grows', carries⟩ := (Made.mapM h).ok_of_bind carries
    obtain ⟨rfl, same, rfl⟩ := carries.silent (.ofExcept (.ok (b :: bs')) w'')
    obtain rfl := Except.ok.inj same
    obtain ⟨found, rfl, rfl, steps⟩ := ih runs'.carries
    exact ⟨(first, b) :: found, by simp, rfl, .cons runs grows steps⟩

/-- What holds of each step and stays so holds of all items in the end. -/
theorem Stepwise.all {R : World τ → World τ → Prop} {Q : World τ → α → Dialogue × β → Prop}
    {f : α → Deed τ β} {xs : List α} {found : List (Dialogue × β)} (h : Stepwise f w xs found t)
    (refl : ∀ w, R w w) (trans : ∀ {a b c}, R a b → R b c → R a c)
    (later : ∀ {w w' a p}, R w w' → Q w a p → Q w' a p)
    (step : ∀ a ∈ xs, ∀ {s s' p}, R w s → Runs Eq (f a) s p.1 (.ok p.2) s' → s.Grows s' →
      R s s' ∧ Q s' a p) :
    R w t ∧ List.Forall₂ (Q t) xs found := by
  suffices ∀ s, R w s → Stepwise f s xs found t → R s t ∧ List.Forall₂ (Q t) xs found from
    this w (refl w) h
  clear h
  intro s begun h
  induction h with
  | nil s => exact ⟨refl s, .nil⟩
  | cons runs grows _ ih =>
    obtain ⟨changed, own⟩ := step _ (.head _) begun runs grows
    obtain ⟨changed', others⟩ := ih (fun a there => step a (.tail _ there)) (trans begun changed)
    exact ⟨trans changed changed', .cons (later changed' own) others⟩

end Deed

end Relata
