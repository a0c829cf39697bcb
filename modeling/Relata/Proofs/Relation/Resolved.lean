import Relata.Relation.Resolve

/-!
How deep compositions may refer to each other makes no difference to a name that is resolved: what
comes of it at one depth comes of it at every greater one, unless that depth was too small. So a
relation that has to be there is the one that is looked for.
-/

namespace Relata

/-- The second result is the first, if the first did not end for want of depth. -/
def Settles {α : Type} (x y : Except Error α) : Prop := x = .error .tooDeep ∨ y = x

namespace Settles

variable {α β : Type} {x y z : Except Error α}

theorem refl (x : Except Error α) : Settles x x := .inr rfl

theorem trans (h : Settles x y) (h' : Settles y z) : Settles x z := by
  rcases h with h | rfl
  · exact .inl h
  · exact h'

theorem bind {f g : α → Except Error β} (h : Settles x y) (rest : ∀ a, Settles (f a) (g a)) :
    Settles (x >>= f) (y >>= g) := by
  rcases h with rfl | rfl
  · exact .inl rfl
  · cases y with
    | error e => exact .refl _
    | ok a => exact rest a

theorem map (h : Settles x y) (f : α → β) : Settles (x.map f) (y.map f) := by
  rcases h with rfl | rfl
  · exact .inl rfl
  · exact .refl _

theorem eq (h : Settles x y) (given : x ≠ .error .tooDeep) : y = x := h.resolve_left given

end Settles

namespace Lookup

/-- What a name resolves to, by what it stands for. -/
def named (complete : Descriptor → String → Descriptor) :
    Except Error (Option (Descriptor × String)) → Except Error (Option Descriptor)
  | .ok (some (d, owner)) => .ok (some (complete d owner))
  | .ok none => .ok none
  | .error e => if isUndescribable e then .ok none else .error e

theorem settles_named {x y : Except Error (Option (Descriptor × String))} (h : Settles x y)
    (complete : Descriptor → String → Descriptor) :
    Settles (named complete x) (named complete y) := by
  rcases h with rfl | rfl
  · exact .inl rfl
  · exact .refl _

/-- One more level of depth: by induction on the depth, for descriptions, resolutions and relations
that have to be there at once, as each asks for the others one level down. -/
theorem settles_succ (l : Lookup) (depth : Nat) :
    (∀ m d, Settles (l.describe depth m d) (l.describe (depth + 1) m d)) ∧
    (∀ m name, Settles (l.resolveUpTo depth m name) (l.resolveUpTo (depth + 1) m name)) ∧
    ∀ m name, Settles (l.requireUpTo depth m name) (l.requireUpTo (depth + 1) m name) := by
  induction depth with
  | zero =>
    refine ⟨fun m d => .inl ?_, fun m name => .inl ?_, fun m name => .inl ?_⟩
    · rw [describe]
    · rw [resolveUpTo]
    · rw [requireUpTo]
  | succ depth ih =>
    obtain ⟨describes, resolves, requires⟩ := ih
    refine ⟨fun m d => ?_, fun m name => ?_, fun m name => ?_⟩
    · rw [describe, describe]
      split
      · exact .refl _
      · refine (requires m _).bind fun one => ?_
        split
        · exact .refl _
        · exact Settles.bind (.refl _) fun between => (requires between _).bind fun _ => .refl _
    · cases name with
      | text name =>
        rw [resolveUpTo, resolveUpTo]
        refine settles_named ?_ (·.withDefaults · l.nameOf name)
        cases m.static.lookup name with
        | some entry =>
          cases entry with
          | declaration d => exact (describes m d).map _
          | _ => exact .refl _
        | none =>
          cases m.declared.lookup name with
          | some entry => exact (describes m entry.2).map _
          | none => exact .refl _
      | _ => exact .inr rfl
    · rw [requireUpTo, requireUpTo]
      exact (resolves m name).bind fun _ => .refl _

theorem settles_of_le (l : Lookup) {depth deeper : Nat} (le : depth ≤ deeper) (m : Model)
    (name : Value) : Settles (l.resolveUpTo depth m name) (l.resolveUpTo deeper m name) := by
  induction le with
  | refl => exact .refl _
  | step _ ih => exact ih.trans ((l.settles_succ _).2.1 m name)

/-- A relation that has to be there is the one that is looked for. -/
theorem resolve_of_require {l : Lookup} {m : Model} {name : Value} {d : Descriptor}
    (h : l.require m name = .ok d) : l.resolve m name = .ok (some d) := by
  have required : l.requireUpTo (599 + 1) m name = .ok d := h
  rw [requireUpTo] at required
  obtain ⟨found, resolved, required⟩ := ok_of_bind required
  cases found with
  | none => cases required
  | some own =>
    cases required
    have settled := (l.settles_succ 599).2.1 m name
    exact (settled.eq (by simp [resolved])).trans resolved

/-- What has to be there bears a name. -/
theorem text_of_require {l : Lookup} {m : Model} {v : Value} {d : Descriptor}
    (h : l.require m v = .ok d) : ∃ name, v = .text name := by
  have resolved : l.resolveUpTo (599 + 1) m v = .ok (some d) := resolve_of_require h
  cases v with
  | text name => exact ⟨name, rfl⟩
  | _ => simp [resolveUpTo] at resolved

end Lookup

end Relata
