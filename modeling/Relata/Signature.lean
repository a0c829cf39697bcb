import Relata.Value

/-!
Signatures of calls by name. Arguments are matched with parameters by position and then by name; one
too many, an unknown name, or a parameter given twice is the wrong arguments for the call, and so is
a required parameter that is left out. What is left out otherwise takes the default, or stays absent
where absence has a meaning of its own.
-/

namespace Relata

inductive Presence where
  | required
  | default (v : Value)
  | absent

structure Parameter where
  name : String
  presence : Presence

abbrev Signature := List Parameter

namespace Signature

/-- The argument of each parameter, in order; an absent one is none. -/
def bind : Signature → List Value → List (String × Value) → Except Error (List (Option Value))
  | [], [], [] => .ok []
  | [], _, _ => .error .badType
  | p :: params, a :: args, named =>
    match named.lookup p.name with
    | some _ => .error .badType
    | none => (bind params args named).map (some a :: ·)
  | p :: params, [], named =>
    match named.lookup p.name, p.presence with
    | some v, _ => (bind params [] (named.filter (·.1 != p.name))).map (some v :: ·)
    | none, .required => .error .badType
    | none, .default v => (bind params [] named).map (some v :: ·)
    | none, .absent => (bind params [] named).map (none :: ·)

/-- Each parameter gets one entry. -/
theorem length_of_bind {s : Signature} {args : List Value} {named : List (String × Value)}
    {bound : List (Option Value)} (h : s.bind args named = .ok bound) :
    bound.length = s.length := by
  fun_induction bind s args named generalizing bound with
  | case1 => simp_all
  | case2 => simp_all
  | case3 => simp_all
  | case4 p params a args named hl ih =>
    cases hb : bind params args named with
    | error e => simp [hb, Except.map] at h
    | ok rest => simp only [hb, Except.map, Except.ok.injEq] at h; subst h; simp [ih hb]
  | case5 p params named v hl ih =>
    cases hb : bind params [] (named.filter (·.1 != p.name)) with
    | error e => simp [hb, Except.map] at h
    | ok rest => simp only [hb, Except.map, Except.ok.injEq] at h; subst h; simp [ih hb]
  | case6 => simp_all
  | case7 p params named v hl hp ih =>
    cases hb : bind params [] named with
    | error e => simp [hb, Except.map] at h
    | ok rest => simp only [hb, Except.map, Except.ok.injEq] at h; subst h; simp [ih hb]
  | case8 p params named hl hp ih =>
    cases hb : bind params [] named with
    | error e => simp [hb, Except.map] at h
    | ok rest => simp only [hb, Except.map, Except.ok.injEq] at h; subst h; simp [ih hb]

end Signature

/-- A parameter that has to be given. -/
def Parameter.needed (name : String) : Parameter := ⟨name, .required⟩

/-- A parameter that is null if it is left out. -/
def Parameter.orNull (name : String) : Parameter := ⟨name, .default .null⟩

def Parameter.orText (name default : String) : Parameter := ⟨name, .default (.text default)⟩

def Parameter.orAbsent (name : String) : Parameter := ⟨name, .absent⟩

end Relata
