import Mathlib.Algebra.Order.Field.Rat
import Mathlib.Data.Rat.Cast.Order
import Mathlib.Tactic.FieldSimp
import Mathlib.Tactic.NormNum
import Mathlib.Tactic.Positivity
import Mathlib.Tactic.Ring
import Relata.Store.Env

/-!
Equality of values that can be keys. Numbers are equal if they have one magnitude, whichever kind of
number they are; whatever else is no collection of values is equal to itself alone; tuples are equal
item by item. So equality of keys is symmetric and transitive, and a value equal to a key is one.
-/

namespace Relata

/-- What a number measures: a ratio, or infinity with a sign. -/
inductive Magnitude where
  | ratio (q : ℚ)
  | infinite (negative : Bool)

namespace Binary64

/-- The mantissa with its sign. -/
def signed (negative : Bool) (mantissa : Nat) : ℚ := if negative then -mantissa else mantissa

/-- What is no number measures nothing. -/
def magnitude? : Binary64 → Option Magnitude
  | .finite negative m e => some (.ratio (signed negative m * 2 ^ e))
  | .infinite negative => some (.infinite negative)
  | .nan => none

theorem power_sub_power (e : Int) : (power 2 e : ℚ) = 2 ^ e * power 2 (-e) := by
  unfold power
  rcases le_total 0 e with h | h
  · obtain ⟨n, rfl⟩ := Int.eq_ofNat_of_zero_le h
    simp
  · obtain ⟨n, hn⟩ := Int.eq_ofNat_of_zero_le (Int.neg_nonneg.mpr h)
    obtain rfl : e = -n := by omega
    simp

theorem scaled_eq {negative : Bool} {m : Nat} {e low : Int} (h : low ≤ e) :
    (scaled negative m e low : ℚ) * 2 ^ low = signed negative m * 2 ^ e := by
  have shifted : (power 2 (e - low) : ℚ) * 2 ^ low = 2 ^ e := by
    have exact : (power 2 (e - low) : ℚ) = 2 ^ (e - low) := by
      obtain ⟨n, hn⟩ := Int.eq_ofNat_of_zero_le (Int.sub_nonneg.mpr h)
      simp [power, hn]
    rw [exact, ← zpow_add₀ (by norm_num)]
    congr 1
    omega
  cases negative <;> simp [scaled, signed, mul_assoc, shifted]

/-- Equal numbers measure the same. -/
theorem equal_iff {x y : Binary64} :
    x.equal y = true ↔ ∃ n, x.magnitude? = some n ∧ y.magnitude? = some n := by
  have together {p q : Magnitude} : (∃ n, some p = some n ∧ some q = some n) ↔ p = q :=
    ⟨fun ⟨_, hp, hq⟩ => Option.some.inj (hp.trans hq.symm), fun h => ⟨q, h ▸ rfl, rfl⟩⟩
  cases x with
  | nan => simp [equal, magnitude?]
  | infinite a =>
    cases y with
    | infinite b => rw [magnitude?, magnitude?, together]; simp [equal]
    | _ => simp [equal, magnitude?]
  | finite a m e =>
    cases y with
    | nan => simp [equal, magnitude?]
    | infinite b => simp [equal, magnitude?]
    | finite b n f =>
      have nonzero : (2 : ℚ) ^ min e f ≠ 0 := zpow_ne_zero _ two_ne_zero
      rw [magnitude?, magnitude?, together, ← scaled_eq (min_le_left e f),
        ← scaled_eq (min_le_right e f)]
      simp [equal, nonzero]

/-- A multiple by the rest and the quotient. -/
theorem eq_mul_iff {num den : Nat} (h : den ≠ 0) {s : Int} :
    (num : Int) = s * den ↔ num % den = 0 ∧ s = (num / den : Nat) := by
  constructor
  · intro same
    have there : (den : Int) ∣ num := ⟨s, by rw [same, Int.mul_comm]⟩
    refine ⟨Nat.mod_eq_zero_of_dvd (Int.natCast_dvd_natCast.mp there), ?_⟩
    rw [Int.natCast_div, same, Int.mul_ediv_cancel _ (by exact_mod_cast h)]
  · rintro ⟨rest, rfl⟩
    exact_mod_cast (Nat.div_mul_cancel (Nat.dvd_of_mod_eq_zero rest)).symm

/-- A number is equal to the integer that it measures. -/
theorem toInt?_eq_some_iff {x : Binary64} {i : Int} :
    x.toInt? = some i ↔ x.magnitude? = some (.ratio i) := by
  cases x with
  | infinite negative => simp [toInt?, magnitude?]
  | nan => simp [toInt?, magnitude?]
  | finite negative m e =>
    have den : (power 2 (-e) : ℚ) ≠ 0 := by simp [power]
    have whole : ((m * power 2 e : Nat) : ℚ) = m * 2 ^ e * power 2 (-e) := by
      rw [Nat.cast_mul, power_sub_power e, mul_assoc]
    have measured : signed negative m * 2 ^ e = i ↔
        ((m * power 2 e : Nat) : ℚ) =
          ((if negative then -i else i) : Int) * (power 2 (-e) : Nat) := by
      rw [whole, mul_left_inj' den]
      cases negative <;> simp [signed, neg_eq_iff_eq_neg]
    simp only [toInt?, magnitude?, ratio, Option.some.injEq, Magnitude.ratio.injEq, measured]
    rw [show ∀ (a : Nat) (b : Int) (c : Nat), (a : ℚ) = (b : ℚ) * (c : ℚ) ↔ (a : Int) = b * c from
      fun a b c => by exact_mod_cast Iff.rfl, eq_mul_iff (by simp [power])]
    by_cases rest : m * power 2 e % power 2 (-e) = 0
    · simp only [rest, if_true, true_and, Option.some.injEq]
      cases negative
      · exact eq_comm
      · exact neg_eq_iff_eq_neg.trans eq_comm
    · simp [rest]

end Binary64

namespace Value

/-- What a value measures if it is a number. -/
def magnitude? : Value → Option Magnitude
  | bool b => some (.ratio (if b then 1 else 0 : Int))
  | int i => some (.ratio i)
  | float x => x.magnitude?
  | _ => none

def isNumber : Value → Bool
  | bool _ | int _ | float _ => true
  | _ => false

/-- Values that are equal to themselves alone: no numbers, and nothing that holds values. -/
def isAtom : Value → Bool
  | bool _ | int _ | float _ | list _ | tuple _ | dict _ => false
  | _ => true

theorem isNumber_of_magnitude? {v : Value} {n : Magnitude} (h : v.magnitude? = some n) :
    v.isNumber = true := by
  cases v <;> first | rfl | cases h

theorem toInt?_eq_some_iff {v : Value} {i : Int} :
    v.toInt? = some i ↔ v.magnitude? = some (.ratio i) := by
  cases v with
  | bool b => cases b <;> simp [toInt?, magnitude?, eq_comm]
  | int j => simp [toInt?, magnitude?]
  | float x => exact Binary64.toInt?_eq_some_iff
  | _ => simp [toInt?, magnitude?]

/-- A number is equal to whatever measures the same. -/
theorem same_iff_of_isNumber {a b : Value} (h : a.isNumber = true) :
    same a b = true ↔ ∃ n, a.magnitude? = some n ∧ b.magnitude? = some n := by
  have whole (i : Int) (v : Value) : (v.toInt? == some i) = true ↔
      ∃ n, some (Magnitude.ratio i) = some n ∧ v.magnitude? = some n := by
    rw [beq_iff_eq, toInt?_eq_some_iff]
    constructor
    · intro h
      exact ⟨_, rfl, h⟩
    · rintro ⟨n, hn, h⟩
      exact hn ▸ h
  have cross (x : Binary64) (i : Int) : same (.float x) (.int i) = true ↔
      ∃ n, x.magnitude? = some n ∧ some (Magnitude.ratio i) = some n := by
    have equal := Binary64.toInt?_eq_some_iff (x := x) (i := i)
    have both : (∃ n, x.magnitude? = some n ∧ some (Magnitude.ratio i) = some n) ↔
        x.magnitude? = some (.ratio i) := by
      constructor
      · rintro ⟨n, hx, hn⟩
        exact hx.trans hn.symm
      · intro h
        exact ⟨_, h, rfl⟩
    rw [both, ← equal]
    cases there : x.toInt? with
    | none => simp [same, toInt?, there]
    | some j =>
      simp only [same, toInt?, there, beq_iff_eq, Option.some.injEq]
      exact eq_comm
  cases a with
  | bool c => exact whole _ b
  | int i => exact whole i b
  | float x =>
    cases b with
    | float y => exact Binary64.equal_iff
    | bool c => exact cross x _
    | int i => exact cross x i
    | _ => simp [same, magnitude?, toInt?]
  | _ => cases h

/-- An atom is equal to itself alone. -/
theorem eq_of_same_of_isAtom {a b : Value} (h : a.isAtom = true) (hs : same a b = true) :
    b = a := by
  cases a <;> simp only [isAtom, Bool.false_eq_true] at h <;> cases b <;> simp_all [same]

theorem exists_of_same_tuple {xs : List Value} {b : Value} (h : same (tuple xs) b = true) :
    ∃ ys, b = tuple ys ∧ sameItems xs ys = true := by
  cases b <;> simp_all [same]

/-- A key is a number, an atom or a tuple of keys. -/
theorem isKey_cases {v : Value} (h : v.isKey = true) :
    v.isNumber = true ∨ v.isAtom = true ∨ ∃ xs, v = tuple xs ∧ areKeys xs = true := by
  cases v with
  | tuple xs => exact .inr (.inr ⟨xs, rfl, h⟩)
  | list _ | dict _ => cases h
  | bool _ | int _ | float _ => exact .inl rfl
  | _ => exact .inr (.inl rfl)

mutual

theorem same_symm {a b : Value} (h : a.isKey = true) (hs : same a b = true) : same b a = true := by
  match a, isKey_cases h with
  | a, .inl number =>
    obtain ⟨n, ha, hb⟩ := (same_iff_of_isNumber number).mp hs
    exact (same_iff_of_isNumber (isNumber_of_magnitude? hb)).mpr ⟨n, hb, ha⟩
  | a, .inr (.inl atom) =>
    obtain rfl := eq_of_same_of_isAtom atom hs
    exact hs
  | tuple xs, .inr (.inr ⟨_, rfl, keys⟩) =>
    obtain ⟨ys, rfl, hs⟩ := exists_of_same_tuple hs
    exact sameItems_symm keys hs

theorem sameItems_symm {xs ys : List Value} (h : areKeys xs = true) (hs : sameItems xs ys = true) :
    sameItems ys xs = true := by
  match xs, ys with
  | [], [] => rfl
  | x :: xs, y :: ys =>
    rw [areKeys, Bool.and_eq_true] at h
    rw [sameItems, Bool.and_eq_true] at hs ⊢
    exact ⟨same_symm h.1 hs.1, sameItems_symm h.2 hs.2⟩

end

mutual

theorem same_trans {a b c : Value} (h : a.isKey = true) (hab : same a b = true)
    (hbc : same b c = true) : same a c = true := by
  match a, isKey_cases h with
  | a, .inl number =>
    obtain ⟨n, ha, hb⟩ := (same_iff_of_isNumber number).mp hab
    obtain ⟨m, hb', hc⟩ := (same_iff_of_isNumber (isNumber_of_magnitude? hb)).mp hbc
    cases hb.symm.trans hb'
    exact (same_iff_of_isNumber number).mpr ⟨n, ha, hc⟩
  | a, .inr (.inl atom) =>
    obtain rfl := eq_of_same_of_isAtom atom hab
    exact hbc
  | tuple xs, .inr (.inr ⟨_, rfl, keys⟩) =>
    obtain ⟨ys, rfl, hab⟩ := exists_of_same_tuple hab
    obtain ⟨zs, rfl, hbc⟩ := exists_of_same_tuple hbc
    exact sameItems_trans keys hab hbc

theorem sameItems_trans {xs ys zs : List Value} (h : areKeys xs = true)
    (hxy : sameItems xs ys = true) (hyz : sameItems ys zs = true) : sameItems xs zs = true := by
  match xs, ys, zs with
  | [], [], [] => rfl
  | x :: xs, y :: ys, z :: zs =>
    rw [areKeys, Bool.and_eq_true] at h
    rw [sameItems, Bool.and_eq_true] at hxy hyz ⊢
    exact ⟨same_trans h.1 hxy.1 hyz.1, sameItems_trans h.2 hxy.2 hyz.2⟩

end

mutual

theorem isKey_of_same {a b : Value} (h : a.isKey = true) (hs : same a b = true) :
    b.isKey = true := by
  match a, isKey_cases h with
  | a, .inl number =>
    obtain ⟨n, _, hb⟩ := (same_iff_of_isNumber number).mp hs
    have number := isNumber_of_magnitude? hb
    cases b <;> first | rfl | cases number
  | a, .inr (.inl atom) =>
    obtain rfl := eq_of_same_of_isAtom atom hs
    exact h
  | tuple xs, .inr (.inr ⟨_, rfl, keys⟩) =>
    obtain ⟨ys, rfl, hs⟩ := exists_of_same_tuple hs
    exact areKeys_of_sameItems keys hs

theorem areKeys_of_sameItems {xs ys : List Value} (h : areKeys xs = true)
    (hs : sameItems xs ys = true) : areKeys ys = true := by
  match xs, ys with
  | [], [] => rfl
  | x :: xs, y :: ys =>
    rw [areKeys, Bool.and_eq_true] at h ⊢
    rw [sameItems, Bool.and_eq_true] at hs
    exact ⟨isKey_of_same h.1 hs.1, areKeys_of_sameItems h.2 hs.2⟩

end

theorem areKeys_iff {vs : List Value} : areKeys vs = true ↔ ∀ v ∈ vs, v.isKey = true := by
  induction vs with
  | nil => simp [areKeys]
  | cons v rest ih => simp [areKeys, ih]

end Value

namespace Env

mutual

/-- What counts as a key counts as one by itself. -/
theorem isKey_of_isKey {env : Env} {v : Value} (h : env.isKey v = true) : v.isKey = true := by
  match v with
  | .tuple items => exact areKeys_of_areKeys h
  | .list _ | .dict _ | .collection _ | .query _ | .draft _ _ => cases h
  | .null | .bool _ | .int _ | .float _ | .text _ | .time _ | .model _ | .object _ | .registry _
  | .tagMap _ | .task _ | .relation _ _ | .failure _ | .portrait _ | .recipe _ _ | .parameter _
  | .variable _ _ | .thrown _ => rfl

theorem areKeys_of_areKeys {env : Env} {vs : List Value} (h : env.areKeys vs = true) :
    Value.areKeys vs = true := by
  match vs with
  | [] => rfl
  | v :: vs =>
    rw [areKeys, Bool.and_eq_true] at h
    rw [Value.areKeys, Bool.and_eq_true]
    exact ⟨isKey_of_isKey h.1, areKeys_of_areKeys h.2⟩

end

theorem isKey_of_isNumber (env : Env) {v : Value} (h : v.isNumber = true) : env.isKey v = true := by
  cases v <;> first | rfl | cases h

mutual

/-- A value equal to a key is a key. -/
theorem isKey_of_same {env : Env} {a b : Value} (h : env.isKey a = true)
    (hs : Value.same a b = true) : env.isKey b = true := by
  match a, Value.isKey_cases (isKey_of_isKey h) with
  | a, .inl number =>
    obtain ⟨n, _, hb⟩ := (Value.same_iff_of_isNumber number).mp hs
    exact isKey_of_isNumber env (Value.isNumber_of_magnitude? hb)
  | a, .inr (.inl atom) =>
    obtain rfl := Value.eq_of_same_of_isAtom atom hs
    exact h
  | .tuple xs, .inr (.inr ⟨_, rfl, _⟩) =>
    obtain ⟨ys, rfl, hs⟩ := Value.exists_of_same_tuple hs
    exact areKeys_of_same h hs

theorem areKeys_of_same {env : Env} {xs ys : List Value} (h : env.areKeys xs = true)
    (hs : Value.sameItems xs ys = true) : env.areKeys ys = true := by
  match xs, ys with
  | [], [] => rfl
  | x :: xs, y :: ys =>
    rw [areKeys, Bool.and_eq_true] at h ⊢
    rw [Value.sameItems, Bool.and_eq_true] at hs
    exact ⟨isKey_of_same h.1 hs.1, areKeys_of_same h.2 hs.2⟩

end

theorem areKeys_iff {env : Env} {vs : List Value} :
    env.areKeys vs = true ↔ ∀ v ∈ vs, env.isKey v = true := by
  induction vs with
  | nil => simp [areKeys]
  | cons v vs ih => simp [areKeys, ih]

end Env

end Relata
