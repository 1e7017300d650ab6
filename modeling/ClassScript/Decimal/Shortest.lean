/-
# The fewest digits that read back

`shortest` gives the decimal that stands for a binary number: of all decimals
that lie closer to it than to any other binary number, one with the fewest
digits, and of those the nearest. It works on exact fractions. For each count of
digits it looks at the two neighbours of the number on the grid of decimals with
that many digits; the first grid with a neighbour inside the interval of the
number wins.
-/
import ClassScript.Decimal.Binary

namespace ClassScript.Decimal

/-- The decimal `digits * 10 ^ exponent`. -/
structure Digits where
  digits : Nat
  exponent : Int
  deriving DecidableEq, Repr

/-- The number of decimal digits of `n`, none for zero. -/
def digitCount (n : Nat) : Nat := if n = 0 then 0 else (Nat.toDigits 10 n).length

/-- A positive fraction `value / unit` with the ends `low / unit` and `high / unit` of the interval
that reads back as the same number, which belong to it if `closed`. -/
structure Interval where
  low : Nat
  value : Nat
  high : Nat
  unit : Nat
  closed : Bool

/-- The interval of `m * 2 ^ q`: half way to the next number on either side. The ends read back as
the number itself if `m` is even. -/
def Interval.ofBinary (m : Nat) (q : Int) : Interval :=
  let gap := if m = Binary.leastNormal ∧ q > Binary.leastExponent then 1 else 2
  let up := Nat.pow 2 (q - 2).toNat
  ⟨(4 * m - gap) * up, 4 * m * up, (4 * m + 2) * up, Nat.pow 2 (2 - q).toNat, m % 2 == 0⟩

/-- Whether `n / unit` lies in the interval. -/
def Interval.holds (i : Interval) (n : Nat) : Bool :=
  if i.closed then i.low ≤ n && n ≤ i.high else i.low < n && n < i.high

/-- The interval in multiples of `10 ^ p`. -/
def Interval.scale (i : Interval) (p : Int) : Interval :=
  let up := Nat.pow 10 (-p).toNat
  { i with low := i.low * up, value := i.value * up, high := i.high * up,
           unit := i.unit * Nat.pow 10 p.toNat }

/-- The power of ten above the fraction: the least `e` with `value / unit < 10 ^ e`. -/
def Interval.magnitude (i : Interval) : Int :=
  if i.unit ≤ i.value then digitCount (i.value / i.unit)
  else 1 - (digitCount ((i.unit + i.value - 1) / i.value - 1) : Int)

/-- The neighbour of the fraction on the grid of multiples of `10 ^ p` that lies in the interval,
the nearer one if both do, and the greater one if they are equally near. -/
def Interval.onGrid (i : Interval) (p : Int) : Option Digits :=
  let s := i.scale p
  let below := s.value / s.unit
  let lowIn := s.holds (below * s.unit)
  let highIn := s.holds ((below + 1) * s.unit)
  if lowIn && (!highIn || 2 * (s.value % s.unit) < s.unit) then some ⟨below, p⟩
  else if highIn then some ⟨below + 1, p⟩
  else none

/-- The first hit on the grids with `count`, `count + 1`, … digits. -/
def Interval.search (i : Interval) (top : Int) : (count tries : Nat) → Option Digits
  | _, 0 => none
  | count, tries + 1 =>
    match i.onGrid (top - count) with
    | some d => some d
    | none => search i top (count + 1) tries

/-- The decimal without zeros at its end. -/
def Digits.strip (d : Digits) : (tries : Nat) → Digits
  | 0 => d
  | tries + 1 =>
    if d.digits ≠ 0 ∧ d.digits % 10 = 0 then strip ⟨d.digits / 10, d.exponent + 1⟩ tries else d

/-- The decimal with the fewest digits that reads back as `m * 2 ^ q`. Seventeen digits always
suffice. -/
def shortest (m : Nat) (q : Int) : Digits :=
  if m = 0 then ⟨0, 0⟩
  else
    let i := Interval.ofBinary m q
    match i.search i.magnitude 1 17 with
    | some d => d.strip 17
    | none => ⟨i.value / i.unit, 0⟩

end ClassScript.Decimal
