/-!
Binary floating numbers of 64 bits, held exactly: a finite one is a mantissa times a power of two. A
ratio is rounded to the nearest of them, a tie going to the even mantissa, so that equality with an
integer, truncation and the choice of digits are all decided in integers.
-/

namespace Relata

/-- A finite number is `mantissa * 2 ^ exponent`, with the mantissa below `2 ^ 53` and the exponent
at least `-1074`; the mantissa is below `2 ^ 52` only at that least exponent. -/
inductive Binary64 where
  | finite (negative : Bool) (mantissa : Nat) (exponent : Int)
  | infinite (negative : Bool)
  | nan
deriving DecidableEq, Inhabited

namespace Binary64

def zero (negative : Bool) : Binary64 := .finite negative 0 (-1074)

/-- The quotient rounded to nearest, a tie going to the even neighbour. -/
def roundQuotient (num den : Nat) : Nat :=
  let q := num / den
  let r := num % den
  if den < 2 * r ∨ (den = 2 * r ∧ q % 2 = 1) then q + 1 else q

/-- An exact quotient is not rounded. -/
theorem roundQuotient_of_dvd {num den : Nat} (h : num % den = 0) :
    roundQuotient num den = num / den := by
  unfold roundQuotient
  have h2 : ¬ (den < 2 * (num % den) ∨ (den = 2 * (num % den) ∧ num / den % 2 = 1)) := by
    rw [h]
    rintro (low | ⟨eq, odd⟩)
    · omega
    · subst eq
      simp at odd
  rw [if_neg h2]

/-- The power of a base, one for an exponent below zero. -/
def power (base : Nat) (exponent : Int) : Nat := Nat.pow base exponent.toNat

/-- The exponent at which `num / den` has a mantissa of 53 bits, or the least one. -/
def exponentFor (num den : Nat) : Int :=
  let guess : Int := (num.log2 : Int) - den.log2 - 52
  let low : Bool :=
    if 0 ≤ guess then num < den * power 2 (52 + guess)
    else num * power 2 (-guess) < den * power 2 52
  max (if low then guess - 1 else guess) (-1074)

/-- The number nearest to `num / den`. -/
def ofRatio (negative : Bool) (num den : Nat) : Binary64 :=
  if num = 0 then zero negative
  else
    let e := exponentFor num den
    let m := roundQuotient (num * power 2 (-e)) (den * power 2 e)
    let (m, e) := if m = power 2 53 then (power 2 52, e + 1) else (m, e)
    if 971 < e then .infinite negative else .finite negative m e

def ofInt (i : Int) : Binary64 := ofRatio (i < 0) i.natAbs 1

/-- The number nearest to `digits * 10 ^ shift`; one out of every range is cut off early. -/
def ofDecimal (negative : Bool) (digits : Nat) (shift : Int) : Binary64 :=
  let top : Int := (Nat.toDigits 10 digits).length + shift
  if digits = 0 ∨ top < -340 then zero negative
  else if 320 < top then .infinite negative
  else ofRatio negative (digits * power 10 shift) (power 10 (-shift))

/-- The absolute value as a ratio. -/
def ratio (mantissa : Nat) (exponent : Int) : Nat × Nat :=
  (mantissa * power 2 exponent, power 2 (-exponent))

/-- The integer that a finite number is cut to. -/
def truncate? : Binary64 → Option Int
  | .finite negative m e =>
    let (num, den) := ratio m e
    let n : Int := (num / den : Nat)
    some (if negative then -n else n)
  | _ => none

/-- The integer that a number is equal to. -/
def toInt? : Binary64 → Option Int
  | .finite negative m e =>
    let (num, den) := ratio m e
    if num % den = 0 then
      let n : Int := (num / den : Nat)
      some (if negative then -n else n)
    else none
  | _ => none

def isZero : Binary64 → Bool
  | .finite _ 0 _ => true
  | _ => false

def isNegative : Binary64 → Bool
  | .finite negative _ _ => negative
  | .infinite negative => negative
  | .nan => false

/-- The mantissa with its sign, at the exponent `e`, which is at most the number's own. -/
def scaled (negative : Bool) (m : Nat) (exponent e : Int) : Int :=
  let n : Int := (m * power 2 (exponent - e) : Nat)
  if negative then -n else n

/-- Numerical equality: the two zeros are equal, and what is no number differs from itself. -/
def equal : Binary64 → Binary64 → Bool
  | .infinite a, .infinite b => a == b
  | .finite a m e, .finite b n f => scaled a m e (min e f) == scaled b n f (min e f)
  | _, _ => false

/-- The number nearest to the difference. Equal numbers differ by the positive zero, unless they are
the negative zero and the positive one. -/
def sub : Binary64 → Binary64 → Binary64
  | .nan, _ | _, .nan => .nan
  | .infinite a, .infinite b => if a = b then .nan else .infinite a
  | .infinite a, _ => .infinite a
  | _, .infinite b => .infinite !b
  | .finite a m e, .finite b n f =>
    let low := min e f
    let d := scaled a m e low - scaled b n f low
    if d = 0 then zero (a && !b) else ofRatio (d < 0) (d.natAbs * power 2 low) (power 2 (-low))

/-- The number nearest to the product. -/
def mul : Binary64 → Binary64 → Binary64
  | .nan, _ | _, .nan => .nan
  | .infinite a, y => if y.isZero then .nan else .infinite (a != y.isNegative)
  | x, .infinite b => if x.isZero then .nan else .infinite (x.isNegative != b)
  | .finite a m e, .finite b n f =>
    ofRatio (a != b) (m * n * power 2 (e + f)) (power 2 (-(e + f)))

/-- Whether a number is below an integer. -/
def isBelow (x : Binary64) (i : Int) : Bool :=
  match x with
  | .nan => false
  | .infinite negative => negative
  | .finite negative m e =>
    let low := min e 0
    scaled negative m e low < i * power 2 (-low)

/-- Whether a number is above an integer. -/
def isAbove (x : Binary64) (i : Int) : Bool :=
  match x with
  | .nan => false
  | .infinite negative => !negative
  | .finite negative m e =>
    let low := min e 0
    i * power 2 (-low) < scaled negative m e low

/-- The number nearest to an integer, if it is in range. -/
def ofInt? (i : Int) : Option Binary64 :=
  match ofInt i with
  | .infinite _ => none
  | x => some x

/-- Whether `10 ^ k` is at most `num / den`. -/
private def reaches (num den : Nat) (k : Int) : Bool :=
  den * power 10 k ≤ num * power 10 (-k)

/-- The greatest power of ten that is at most `num / den`, searched upwards from a low guess. -/
private def leadingPower (num den : Nat) : Int :=
  let guess : Int := Int.fdiv (((num.log2 : Int) - den.log2 - 1) * 30103) 100000 - 1
  let rec climb : Nat → Int → Int
    | 0, k => k
    | steps + 1, k => if reaches num den (k + 1) then climb steps (k + 1) else k
  climb 4 guess

/-- The digits on the grid of step `10 ^ place` that read back as the number: of the two neighbours
of `num / den` on the grid, the nearer one that does. -/
private def digitsOn (self : Binary64) (num den : Nat) (place : Int) : Option Nat :=
  let n := num * power 10 (-place)
  let d := den * power 10 place
  let low := n / d
  let readsBack (digits : Nat) : Bool := ofDecimal false digits place == self
  let order := if 2 * (n % d) ≤ d then [low, low + 1] else [low + 1, low]
  order.find? readsBack

/-- The fewest digits that read back as the positive number, with the power of ten they stand at. -/
def shortest (mantissa : Nat) (exponent : Int) : Nat × Int :=
  let self := Binary64.finite false mantissa exponent
  let (num, den) := ratio mantissa exponent
  let lead := leadingPower num den
  let tries := (List.range 17).findSome? fun (n : Nat) =>
    (digitsOn self num den (lead - n)).map fun digits => (digits, lead - (n : Int))
  tries.getD (mantissa, exponent)

/-- Positional notation serves for leading powers from `10 ^ -4` to `10 ^ 15`; beyond them one digit
stands before the point and the power follows with at least two digits. -/
private def layout (digits : List Char) (place : Int) : List Char :=
  let point := digits.length + place
  if -4 < point ∧ point ≤ 16 then
    if point ≤ 0 then "0.".toList ++ List.replicate (-point).toNat '0' ++ digits
    else
      let whole := digits.take point.toNat ++ List.replicate (point.toNat - digits.length) '0'
      let rest := digits.drop point.toNat
      whole ++ '.' :: (if rest.isEmpty then ['0'] else rest)
  else
    let shift := point - 1
    let size := Nat.toDigits 10 shift.natAbs
    let size := if size.length < 2 then '0' :: size else size
    digits.take 1 ++ (if digits.length ≤ 1 then [] else '.' :: digits.drop 1) ++
      'e' :: (if shift < 0 then '-' else '+') :: size

/-- The text of a number: the fewest digits that read back, with a fraction or a power
always shown. -/
def text : Binary64 → String
  | .nan => "nan"
  | .infinite negative => if negative then "-inf" else "inf"
  | .finite negative m e =>
    let body :=
      if m = 0 then "0.0".toList
      else
        let (digits, place) := shortest m e
        let all := Nat.toDigits 10 digits
        let kept := (all.reverse.dropWhile (· == '0')).reverse
        layout kept (place + (all.length - kept.length : Nat))
    String.ofList (if negative then '-' :: body else body)

private theorem layout_ne_nil (digits : List Char) (place : Int) : layout digits place ≠ [] := by
  unfold layout
  dsimp only
  split
  · split <;> simp
  · simp

/-- Around the digits of a number stand zeros, a point, and the power with its sign. -/
private theorem not_mem_layout {digits : List Char} {place : Int} {c : Char} (other : c ∉ digits)
    (digit : c.isDigit = false) (mark : c ∉ ['.', 'e', '+', '-']) : c ∉ layout digits place := by
  have size (n : Nat) : c ∉ Nat.toDigits 10 n := fun there => by
    rw [Nat.isDigit_of_mem_toDigits (by decide) (by decide) there] at digit
    cases digit
  have zero : c ≠ '0' := by
    rintro rfl
    cases digit
  have part (n : Nat) : c ∉ digits.take n ∧ c ∉ digits.drop n :=
    ⟨fun there => other (List.mem_of_mem_take there), fun there => other (List.mem_of_mem_drop there)⟩
  have tail : c ∉ digits.tail := fun there => other (List.mem_of_mem_tail there)
  simp only [List.mem_cons, List.not_mem_nil, or_false, not_or] at mark
  unfold layout
  dsimp only
  split
  · split
    · simp [mark, zero, other]
    · split <;> simp [mark, zero, part]
  · split <;> split <;> split <;> simp [mark, zero, part, tail, size]

/-- A number is not shown as nothing, nor with characters other than digits, signs and letters. -/
theorem not_mem_text {c : Char} (digit : c.isDigit = false)
    (mark : c ∉ ['.', 'e', '+', '-', 'n', 'a', 'i', 'f']) (x : Binary64) : c ∉ x.text.toList := by
  simp only [List.mem_cons, List.not_mem_nil, or_false, not_or] at mark
  cases x with
  | nan => simp [text, mark]
  | infinite negative => cases negative <;> simp [text, mark]
  | finite negative m e =>
    have zero : c ≠ '0' := by
      rintro rfl
      cases digit
    have body : c ∉ (if m = 0 then "0.0".toList else
        let (digits, place) := shortest m e
        let all := Nat.toDigits 10 digits
        let kept := (all.reverse.dropWhile (· == '0')).reverse
        layout kept (place + (all.length - kept.length : Nat))) := by
      split
      · simp [zero, mark]
      · refine not_mem_layout (fun there => ?_) digit (by simp [mark])
        have kept := (List.dropWhile_sublist _).mem (List.mem_reverse.mp there)
        rw [Nat.isDigit_of_mem_toDigits (by decide) (by decide) (List.mem_reverse.mp kept)] at digit
        cases digit
    simp only [text, String.toList_ofList]
    split
    · exact List.not_mem_cons_of_ne_of_not_mem mark.2.2.2.1 body
    · exact body

theorem text_ne_empty (x : Binary64) : x.text.toList ≠ [] := by
  cases x with
  | nan => simp [text]
  | infinite negative => cases negative <;> simp [text]
  | finite negative m e =>
    simp only [text, String.toList_ofList]
    split
    · simp
    · split
      · simp
      · exact layout_ne_nil _ _

end Binary64

end Relata
