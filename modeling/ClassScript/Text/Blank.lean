/-
# Blank characters

The characters with the Unicode property `White_Space`: what separates tokens,
what is trimmed off the lines a user types and off the ends of source lines that
are shown, and what may stand around a number's text.
-/

namespace ClassScript.Text

/-- The Unicode property `White_Space`. -/
def isBlank (c : Char) : Bool :=
  let n := c.toNat
  (9 ≤ n && n ≤ 13) || n == 0x20 || n == 0x85 || n == 0xa0 || n == 0x1680 ||
    (0x2000 ≤ n && n ≤ 0x200a) || n == 0x2028 || n == 0x2029 || n == 0x202f || n == 0x205f ||
    n == 0x3000

/-- The characters without the blank ones at the end. -/
def dropBlankEnd (cs : List Char) : List Char := (cs.reverse.dropWhile isBlank).reverse

/-- The text without the blank characters at its end. -/
def trimEnd (s : String) : String := String.ofList (dropBlankEnd s.toList)

/-- The text without the blank characters at either end. -/
def trim (s : String) : String := String.ofList (dropBlankEnd (s.toList.dropWhile isBlank))

end ClassScript.Text
