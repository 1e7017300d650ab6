/-
# Binary numbers as exact fractions

A number of the language is a binary floating-point number of 64 bits. This
module reads its bits: a finite one is `± mantissa * 2 ^ exponent`, exactly.
-/

namespace ClassScript.Decimal

/-- The bits of a number, by what they stand for. -/
inductive Binary where
  | nan
  | infinite (negative : Bool)
  | finite (negative : Bool) (mantissa : Nat) (exponent : Int)
  deriving DecidableEq, Repr

/-- The least exponent a finite number has, that of the numbers nearest to zero. -/
def Binary.leastExponent : Int := -1074

/-- The mantissa of a power of two, below which numbers lie closer together. -/
def Binary.leastNormal : Nat := 0x10000000000000

/-- What 64 bits stand for. -/
def Binary.ofBits (bits : Nat) : Binary :=
  let negative := (bits >>> 63) % 2 == 1
  let field := (bits >>> 52) % 0x800
  let fraction := bits % leastNormal
  if field = 0x7ff then if fraction = 0 then .infinite negative else .nan
  else if field = 0 then .finite negative fraction leastExponent
  else .finite negative (leastNormal + fraction) (leastExponent + (field - 1 : Nat))

/-- What a number stands for. -/
def Binary.ofFloat (x : Float) : Binary := ofBits x.toBits.toNat

end ClassScript.Decimal
