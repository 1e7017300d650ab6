/-
# Reading numbers

The text of a number: an optional sign, then either digits with an optional
fraction and an optional exponent, or one of the words `inf`, `infinity` and
`nan` in any case. A digit may be missing on one side of the point, not on both.
`Numeral.read` gives the number nearest to what the text stands for.

Key lemma: `valueOf_eq`, the value of a list of digits.
-/
import ClassScript.Decimal.Shortest

namespace ClassScript.Decimal

/-- Why a text is no number. -/
inductive NumeralFault where
  | empty
  | malformed
  deriving DecidableEq, Repr

def NumeralFault.message : NumeralFault → String
  | .empty => "cannot parse float from empty string"
  | .malformed => "invalid float literal"

/-- What the text of a number stands for. -/
inductive Numeral where
  | nan
  | infinity (negative : Bool)
  | finite (negative : Bool) (value : Digits)
  deriving DecidableEq, Repr

/-- The value of a decimal digit. -/
def digitValue (c : Char) : Nat := c.toNat - '0'.toNat

/-- A number of which some digits have been read: `whole * scale + part`, where `part` holds the
latest of them and stays small. -/
structure Reading where
  whole : Nat := 0
  part : Nat := 0
  scale : Nat := 1

def Reading.value (r : Reading) : Nat := r.whole * r.scale + r.part

/-- Reads one more digit. Eighteen of them are gathered before the long number changes. -/
def Reading.push (r : Reading) (c : Char) : Reading :=
  let part := 10 * r.part + digitValue c
  let scale := 10 * r.scale
  if scale < 1000000000000000000 then ⟨r.whole, part, scale⟩ else ⟨r.whole * scale + part, 0, 1⟩

/-- The value of a list of decimal digits. -/
def valueOf (digits : List Char) : Nat := (digits.foldl Reading.push {}).value

theorem Reading.value_push (r : Reading) (c : Char) :
    (r.push c).value = 10 * r.value + digitValue c := by
  have h : r.whole * (10 * r.scale) = 10 * (r.whole * r.scale) := Nat.mul_left_comm ..
  simp only [push]
  split <;> simp only [value] <;> omega

theorem Reading.value_foldl (digits : List Char) (r : Reading) :
    (digits.foldl push r).value = digits.foldl (fun n c => 10 * n + digitValue c) r.value := by
  induction digits generalizing r with
  | nil => rfl
  | cons c cs ih => rw [List.foldl_cons, List.foldl_cons, ih, value_push]

/-- **The value of digits is read from left to right: each one is added to ten times what was
there.** -/
theorem valueOf_eq (digits : List Char) :
    valueOf digits = digits.foldl (fun n c => 10 * n + digitValue c) 0 :=
  Reading.value_foldl digits {}

/-- The decimal digits at the front of a text. -/
def leadingDigits (cs : List Char) : List Char × List Char := cs.span Char.isDigit

/-- The digits of an exponent stop counting once it has reached this. -/
def exponentBound : Nat := 0x10000

/-- The size of an exponent with these digits. -/
def exponentOf (digits : List Char) : Nat :=
  digits.foldl (fun n c => if n < exponentBound then 10 * n + digitValue c else n) 0

/-- The exponent at the end of a numeral: empty, or `e` with an optional sign and digits. -/
def readExponent : List Char → Option Int
  | [] => some 0
  | c :: cs =>
    if c = 'e' ∨ c = 'E' then
      let (negative, cs) := match cs with
        | '-' :: rest => (true, rest)
        | '+' :: rest => (false, rest)
        | _ => (false, cs)
      let (digits, rest) := leadingDigits cs
      if digits.isEmpty || !rest.isEmpty then none
      else some (if negative then -(exponentOf digits : Int) else exponentOf digits)
    else none

/-- Digits, an optional fraction and an optional exponent. -/
def readDigits (cs : List Char) : Option Digits :=
  let (whole, rest) := leadingDigits cs
  let (fraction, rest) := match rest with
    | '.' :: rest => leadingDigits rest
    | _ => ([], rest)
  if whole.isEmpty && fraction.isEmpty then none
  else (readExponent rest).map fun e => ⟨valueOf (whole ++ fraction), e - fraction.length⟩

/-- The part of a numeral after its sign. -/
def readUnsigned (negative : Bool) (cs : List Char) : Option Numeral :=
  match readDigits cs with
  | some value => some (.finite negative value)
  | none =>
    let word := String.ofList (cs.map Char.toLower)
    if word = "inf" ∨ word = "infinity" then some (.infinity negative)
    else if word = "nan" then some .nan
    else none

/-- The numeral that a text is. -/
def Numeral.parse : List Char → Except NumeralFault Numeral
  | [] => .error .empty
  | c :: cs =>
    let found :=
      if c = '-' then readUnsigned true cs
      else if c = '+' then readUnsigned false cs
      else readUnsigned false (c :: cs)
    match found with
    | some n => .ok n
    | none => .error .malformed

/-- The number nearest to a decimal that is not negative. Outside the range of the numbers it is
infinity or zero, which the exponent and the length of the digits in bits show: `2 ^ 3` is less
than ten and `2 ^ 10` more than a thousand. -/
def Digits.toFloat (d : Digits) : Float :=
  let bits := Nat.log2 d.digits
  if d.digits = 0 ∨ d.exponent + (bits / 3 + 1 : Nat) < -400 then 0
  else if d.exponent + (3 * (bits / 10) : Nat) > 400 then Float.ofBits 0x7ff0000000000000
  else if d.exponent < 0 then Float.ofScientific d.digits true d.exponent.natAbs
  else Float.ofScientific d.digits false d.exponent.natAbs

/-- The number nearest to what a numeral stands for. -/
def Numeral.toFloat : Numeral → Float
  | .nan => Float.ofBits 0x7ff8000000000000
  | .infinity negative =>
    Float.ofBits (if negative then 0xfff0000000000000 else 0x7ff0000000000000)
  | .finite negative value => if negative then -value.toFloat else value.toFloat

/-- Reads the text of a number. -/
def Numeral.read (s : String) : Except NumeralFault Float :=
  (Numeral.parse s.toList).map Numeral.toFloat

end ClassScript.Decimal
