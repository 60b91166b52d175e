import Shapewise.Numeral.Binary64

/-!
# Shortest decimals

The text of a floating point value has the fewest digits that read back as the value and, of those,
the digits nearest to it. A value is `m · 2 ^ e` with at most 53 bits; the reals that round to it
lie between the midpoints to its neighbours, ends included where `m` is even. For one digit, two
digits and so on the two decimals around the value are tried, in exact integer arithmetic.
-/

namespace Shapewise.Binary64

/-- A decimal number `digits · 10 ^ exponent`. -/
structure Decimal where
  digits : Nat
  exponent : Int
  deriving DecidableEq, Repr

/-- A positive value as significand and exponent of its last bit. -/
def significand (n : Nat) (k : Int) : Nat × Int :=
  let shift := min (53 - ((Nat.log2 n : Int) + 1)) (1074 - k) |>.toNat
  (n * Nat.pow 2 shift, -k - shift)

/-- The reals that round to a value, measured from 0 in quarters of its last bit. -/
structure Interval where
  low : Nat
  value : Nat
  high : Nat
  closed : Bool

/-- The interval of the value `m · 2 ^ e`; below a power of two the neighbour is nearer. -/
def Interval.around (m : Nat) (e : Int) : Interval :=
  { low := if m = Nat.pow 2 52 ∧ -1074 < e then 4 * m - 1 else 4 * m - 2
    value := 4 * m
    high := 4 * m + 2
    closed := m % 2 = 0 }

/-- The exponent of the first decimal digit of a positive ratio. -/
def firstDigit (num den : Nat) : Int :=
  if den ≤ num then (decimalLength (num / den) : Int) - 1
  else -(decimalLength ((den + num - 1) / num - 1) : Int)

/-- The decimal of the grid `10 ^ p` that lies in the interval, the nearer one of two, the even one
at a tie. `unit` is the exponent of a quarter of the last bit. -/
def Interval.onGrid (i : Interval) (unit p : Int) : Option Nat :=
  let scale := Nat.pow 2 unit.toNat * Nat.pow 10 (-p).toNat
  let den := Nat.pow 2 (-unit).toNat * Nat.pow 10 p.toNat
  let holds := fun c : Nat =>
    if i.closed then i.low * scale ≤ c * den && c * den ≤ i.high * scale
    else i.low * scale < c * den && c * den < i.high * scale
  let below := i.value * scale / den
  let above := below + 1
  if holds below then
    if holds above then some (nearestEven (i.value * scale) den) else some below
  else if holds above then some above
  else none

/-- Tries the grids from `p` downwards. -/
def Interval.search (i : Interval) (unit : Int) : Nat → Int → Decimal
  | 0, p => ⟨((i.onGrid unit p).getD 0), p⟩
  | fuel + 1, p =>
    match i.onGrid unit p with
    | some c => ⟨c, p⟩
    | none => i.search unit fuel (p - 1)

/-- Moves the zeros at the end of the digits into the exponent. -/
def Decimal.trim (d : Decimal) : Nat → Decimal
  | 0 => d
  | fuel + 1 =>
    if d.digits % 10 = 0 then Decimal.trim ⟨d.digits / 10, d.exponent + 1⟩ fuel else d

/-- The shortest decimal of the positive value `n / 2 ^ k`. -/
def shortest (n : Nat) (k : Int) : Decimal :=
  let me := significand n k
  let i := Interval.around me.1 me.2
  let first := firstDigit (n * Nat.pow 2 (-k).toNat) (Nat.pow 2 k.toNat)
  (i.search (me.2 - 2) 17 first).trim 20

/-! ## Text -/

/-- How a decimal is laid out: the exponents of the first digit from which and below which it is
written in positional notation, and the least number of digits of an exponent. -/
structure Layout where
  positionalFrom : Int
  positionalBelow : Int
  exponentDigits : Nat

/-- Numbers from 0.0001 to below 10 ^ 16 are written in positional notation, and an exponent has at
least two digits. -/
def Layout.standard : Layout := ⟨-4, 16, 2⟩

/-- Digits with their point: a whole number keeps `.0` at its end. -/
def Layout.positional (ds : List Char) (first : Int) : List Char :=
  if first < 0 then '0' :: '.' :: List.replicate (-first - 1).toNat '0' ++ ds
  else
    let whole := first.toNat + 1
    let ds := ds ++ List.replicate (whole - ds.length) '0'
    let fraction := ds.drop whole
    ds.take whole ++ '.' :: (if fraction.isEmpty then ['0'] else fraction)

/-- Digits with a point after the first one and the exponent of the first one. -/
def Layout.scientific (l : Layout) (ds : List Char) (first : Int) : List Char :=
  let exponent := Nat.toDigits 10 first.natAbs
  let fraction := ds.drop 1
  ds.take 1 ++ (if fraction.isEmpty then [] else '.' :: fraction) ++ 'e' ::
    (if first < 0 then '-' else '+') ::
      List.replicate (l.exponentDigits - exponent.length) '0' ++ exponent

/-- The text of a positive decimal. -/
def Layout.write (l : Layout) (d : Decimal) : List Char :=
  let ds := Nat.toDigits 10 d.digits
  let first := (ds.length : Int) - 1 + d.exponent
  if l.positionalFrom ≤ first ∧ first < l.positionalBelow then Layout.positional ds first
  else l.scientific ds first

/-- The text of a value. -/
def text : Binary64 → String
  | .nan => "nan"
  | .infinite false => "inf"
  | .infinite true => "-inf"
  | .negativeZero => "-0.0"
  | .finite .zero => "0.0"
  | .finite (.ofOdd n k _) =>
    let body := Layout.standard.write (shortest n.natAbs k)
    String.ofList (if n < 0 then '-' :: body else body)

end Shapewise.Binary64
