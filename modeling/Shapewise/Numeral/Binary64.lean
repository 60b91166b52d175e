/-!
# Binary floating point

The values of the 64-bit binary format with exact numbers for the finite ones: a finite value is a
dyadic rational, of which there is one representation, so equal values are equal terms. Zero has a
sign, which only its text shows. Decimal text is rounded to the nearest value, a tie going to the
even neighbour, in exact integer arithmetic.
-/

namespace Shapewise

/-- A floating point value; `finite 0` is the positive zero. -/
inductive Binary64
  | nan
  | infinite (negative : Bool)
  | negativeZero
  | finite (x : Dyadic)
  deriving DecidableEq

namespace Binary64

/-- The integer nearest to a ratio, a tie going to the even neighbour. -/
def nearestEven (num den : Nat) : Nat :=
  let q := num / den
  let r := num % den
  if 2 * r < den then q
  else if den < 2 * r then q + 1
  else if q % 2 = 0 then q else q + 1

/-- A ratio measured in units of a power of two, again as a ratio. -/
def inUnits (num den : Nat) (e : Int) : Nat × Nat :=
  (num * Nat.pow 2 (-e).toNat, den * Nat.pow 2 e.toNat)

/-- The exponent of the last bit of the value nearest to a positive ratio: 53 bits, or fewer at the
lower end of the range. -/
def lastBit (num den : Nat) : Int :=
  let e : Int := (Nat.log2 num : Int) - Nat.log2 den - 52
  let scaled := inUnits num den e
  let e := if scaled.1 < scaled.2 * Nat.pow 2 52 then e - 1 else e
  max e (-1074)

/-- The value nearest to a positive ratio with the given sign. -/
def ofRatio (negative : Bool) (num den : Nat) : Binary64 :=
  let e := lastBit num den
  let scaled := inUnits num den e
  let m := nearestEven scaled.1 scaled.2
  if m = 0 then if negative then .negativeZero else .finite 0
  else if 1024 < (Nat.log2 m : Int) + e + 1 then .infinite negative
  else .finite (Dyadic.ofIntWithPrec (if negative then -(m : Int) else m) (-e))

/-- The number of decimal digits of a number. -/
def decimalLength (n : Nat) : Nat :=
  (Nat.toDigits 10 n).length

/-- The value nearest to `digits · 10 ^ exponent` with the given sign. Powers of ten beyond the
range are not computed. -/
def ofDecimal (negative : Bool) (digits : Nat) (exponent : Int) : Binary64 :=
  let top := (decimalLength digits : Int) + exponent
  if digits = 0 ∨ top < -330 then if negative then .negativeZero else .finite 0
  else if 320 < top then .infinite negative
  else ofRatio negative (digits * Nat.pow 10 exponent.toNat) (Nat.pow 10 (-exponent).toNat)

/-- The integer that a value is, where it is one. -/
def toInt? : Binary64 → Option Int
  | .negativeZero => some 0
  | .finite .zero => some 0
  | .finite (.ofOdd n k _) => if k ≤ 0 then some (n * Int.pow 2 (-k).toNat) else none
  | _ => none

end Binary64

end Shapewise
