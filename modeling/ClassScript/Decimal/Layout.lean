/-
# Writing numbers

How the digits of a number are laid out. The language itself writes numbers
without an exponent and without an empty fraction (`Layout.plain`); the dump of
a tree always shows a fraction and turns to an exponent for numbers that are very
large or very small (`Layout.exact`).
-/
import ClassScript.Decimal.Shortest

namespace ClassScript.Decimal

/-- The choices of a way to write numbers. -/
structure Layout where
  /-- Whether a number without a fraction ends in `.0`. -/
  showsFraction : Bool
  /-- Whether a number whose first digit stands for `10 ^ e` is written without an exponent. -/
  positional : Int → Bool

/-- Digits only: `1000000`, `0.5`, `-0`. -/
def Layout.plain : Layout := ⟨false, fun _ => true⟩

/-- A fraction always, and an exponent from `1e16` up and below `1e-4`. -/
def Layout.exact : Layout := ⟨true, fun e => -5 < e ∧ e < 16⟩

/-- The digits of a decimal, written without an exponent. -/
def Layout.writePositional (l : Layout) (digits : List Char) (exponent : Int) : List Char :=
  let point := (digits.length : Int) + exponent
  if point ≤ 0 then ['0', '.'] ++ List.replicate (-point).toNat '0' ++ digits
  else if 0 ≤ exponent then
    digits ++ List.replicate exponent.toNat '0' ++ (if l.showsFraction then ['.', '0'] else [])
  else digits.take point.toNat ++ '.' :: digits.drop point.toNat

/-- The digits of a decimal, written with one digit in front of the point and an exponent. -/
def Layout.writeExponent (digits : List Char) (leading : Int) : List Char :=
  let fraction := digits.drop 1
  digits.take 1 ++ (if fraction.isEmpty then [] else '.' :: fraction) ++ 'e' ::
    (if leading < 0 then '-' :: Nat.toDigits 10 leading.natAbs else Nat.toDigits 10 leading.natAbs)

/-- A decimal that is not negative. -/
def Layout.write (l : Layout) (d : Digits) : List Char :=
  if d.digits = 0 then if l.showsFraction then ['0', '.', '0'] else ['0']
  else
    let digits := Nat.toDigits 10 d.digits
    let leading := (digits.length : Int) + d.exponent - 1
    if l.positional leading then l.writePositional digits d.exponent
    else writeExponent digits leading

/-- A number: the sign, then the fewest digits that read back. -/
def Layout.writeFloat (l : Layout) (x : Float) : String :=
  let signed (negative : Bool) (cs : List Char) : String :=
    String.ofList (if negative then '-' :: cs else cs)
  match Binary.ofFloat x with
  | .nan => "NaN"
  | .infinite negative => signed negative ['i', 'n', 'f']
  | .finite negative m q => signed negative (l.write (shortest m q))

end ClassScript.Decimal
