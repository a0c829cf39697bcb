import Relata.Validation.Scalar

/-!
Records of named fields, read into structures. Every fault of a record is reported, in the order in
which its fields are read, so the readers are put together with `<*>`, which keeps the faults of
both sides. Fields that nothing asks for are left aside.
-/

namespace Relata

/-- A result, or all that is wrong. -/
inductive Checked (α : Type) where
  | good (a : α)
  | bad (issues : List Issue)

namespace Checked

instance : Functor Checked where
  map f
    | good a => good (f a)
    | bad issues => bad issues

instance : Applicative Checked where
  pure := good
  seq f x := match f, x () with
    | good f, good a => good (f a)
    | good _, bad issues => bad issues
    | bad issues, good _ => bad issues
    | bad issues, bad more => bad (issues ++ more)

def toExcept : Checked α → Except Error α
  | good a => .ok a
  | bad issues => .error (.invalid issues)

def ofFault (name : String) : Except Fault α → Checked α
  | .ok a => good a
  | .error fault => bad [⟨[name], fault⟩]

/-- The first of two checks that fails decides alone; the second one sees the result of
the first. -/
def andThen (c : Checked α) (f : α → Checked β) : Checked β :=
  match c with
  | good a => f a
  | bad issues => bad issues

section

variable {α β : Type}

/-- Both sides of a check that is good are good. -/
theorem good_of_seq {f : Checked (α → β)} {x : Checked α} {b : β} (h : f <*> x = good b) :
    ∃ g a, f = good g ∧ x = good a ∧ g a = b := by
  cases f <;> cases x <;> cases h
  exact ⟨_, _, rfl, rfl, rfl⟩

theorem good_of_map {f : α → β} {x : Checked α} {b : β} (h : f <$> x = good b) :
    ∃ a, x = good a ∧ f a = b := by
  cases x <;> cases h
  exact ⟨_, rfl, rfl⟩

/-- The second check is good on what the first one gives. -/
theorem good_of_andThen {c : Checked α} {f : α → Checked β} {b : β} (h : c.andThen f = good b) :
    ∃ a, c = good a ∧ f a = good b := by
  cases c with
  | good a => exact ⟨a, rfl, h⟩
  | bad issues => cases h

theorem good_of_toExcept {c : Checked α} {a : α} (h : c.toExcept = .ok a) : c = good a := by
  cases c <;> cases h
  rfl

end

end Checked

abbrev Record := List (String × Value)

namespace Record

def get? (r : Record) (name : String) : Option Value := r.lookup name

/-- A field read by `read`; if it is absent the default stands in, and without one it is missing. -/
def field (r : Record) (name : String) (default : Option α) (read : Value → Except Fault α) :
    Checked α :=
  match r.get? name, default with
  | some v, _ => .ofFault name (read v)
  | none, some a => .good a
  | none, none => .bad [⟨[name], .missing⟩]

def text (r : Record) (name : String) (default : Option String) : Checked String :=
  r.field name default ScalarType.readText

/-- A text or nothing; absent counts as nothing. -/
def text? (r : Record) (name : String) : Checked (Option String) :=
  r.field name (some none) fun
    | .null => .ok none
    | v => (ScalarType.readText v).map some

def any (r : Record) (name : String) (default : Option Value) : Checked Value :=
  r.field name default .ok

def readItems (v : Value) : Except Fault (List Value) :=
  match v.members? with
  | some items => .ok items
  | none => .error .notList

/-- A list; absent counts as empty. -/
def items (r : Record) (name : String) : Checked (List Value) := r.field name (some []) readItems

/-- One of a few words. -/
def choice (r : Record) (name : String) (default : Option α) (words : List (String × α)) :
    Checked α :=
  r.field name default fun
    | .text s => match words.lookup s with
      | some a => .ok a
      | none => .error .notChoice
    | _ => .error .notChoice

/-- A text that is read stands in the record. -/
theorem mem_of_text {r : Record} {name s : String} (h : r.text name none = .good s) :
    (name, .text s) ∈ r := by
  unfold text field get? at h
  cases hv : r.lookup name with
  | none => simp [hv] at h
  | some v =>
    rw [hv] at h
    cases v <;> cases h
    obtain ⟨before, after, rfl, -⟩ := List.lookup_eq_some_iff.mp hv
    simp

theorem mem_of_text? {r : Record} {name s : String} (h : r.text? name = .good (some s)) :
    (name, .text s) ∈ r := by
  unfold text? field get? at h
  cases hv : r.lookup name with
  | none => simp [hv] at h
  | some v =>
    rw [hv] at h
    cases v <;> cases h
    obtain ⟨before, after, rfl, -⟩ := List.lookup_eq_some_iff.mp hv
    simp

/-- The entries of a dictionary whose keys are texts; the others count for nothing. -/
def ofValue? : Value → Option Record
  | .dict entries => some (entries.filterMap fun (k, v) => k.asText?.map fun name => (name, v))
  | _ => none

end Record

end Relata
