/-
# Reading UTF-8

`Utf8.units` reads a sequence of octets, one at a time, into characters and
malformed units. A malformed unit is the longest run of octets that could have
begun a character but did not go on as one, or a single octet that begins none.
Both readers of the library come from it: `decode?` refuses a text with a
malformed unit, and `decodeLossy` puts U+FFFD in its place.
-/

namespace ClassScript.Utf8

/-- A character of which some octets have been read. -/
structure Pending where
  /-- How many octets are still owed, at least one. -/
  owed : Nat
  /-- The least value the next octet may have. -/
  low : Nat
  /-- The greatest value the next octet may have. -/
  high : Nat
  /-- The bits of the code point read so far. -/
  bits : Nat
  deriving DecidableEq, Repr

/-- What an octet does at the start of a character. -/
inductive Start where
  | whole (c : Char)
  | partly (p : Pending)
  | refused

/-- The character an octet begins. -/
def start (b : Nat) : Start :=
  if b ≤ 0x7f then .whole (Char.ofNat b)
  else if 0xc2 ≤ b ∧ b ≤ 0xdf then .partly ⟨1, 0x80, 0xbf, b - 0xc0⟩
  else if b = 0xe0 then .partly ⟨2, 0xa0, 0xbf, 0⟩
  else if b = 0xed then .partly ⟨2, 0x80, 0x9f, 0xd⟩
  else if 0xe1 ≤ b ∧ b ≤ 0xef then .partly ⟨2, 0x80, 0xbf, b - 0xe0⟩
  else if b = 0xf0 then .partly ⟨3, 0x90, 0xbf, 0⟩
  else if 0xf1 ≤ b ∧ b ≤ 0xf3 then .partly ⟨3, 0x80, 0xbf, b - 0xf0⟩
  else if b = 0xf4 then .partly ⟨3, 0x80, 0x8f, 4⟩
  else .refused

/-- The reader between two octets: the units read so far, the last one first, and the character
that is under way. `none` stands for a malformed unit. -/
structure Reader where
  units : List (Option Char) := []
  pending : Option Pending := none

/-- Reads an octet that does not go on with a character. -/
def Reader.begin (units : List (Option Char)) (b : Nat) : Reader :=
  match start b with
  | .whole c => ⟨some c :: units, none⟩
  | .partly p => ⟨units, some p⟩
  | .refused => ⟨none :: units, none⟩

/-- Reads one octet. -/
def Reader.push (r : Reader) (octet : UInt8) : Reader :=
  let b := octet.toNat
  match r.pending with
  | none => begin r.units b
  | some p =>
    if p.low ≤ b ∧ b ≤ p.high then
      let bits := p.bits * 64 + (b - 0x80)
      if p.owed ≤ 1 then ⟨some (Char.ofNat bits) :: r.units, none⟩
      else ⟨r.units, some ⟨p.owed - 1, 0x80, 0xbf, bits⟩⟩
    else begin (none :: r.units) b

/-- The units read when no octet follows, the first one first. -/
def Reader.finish (r : Reader) : List (Option Char) :=
  match r.pending with
  | none => r.units.reverse
  | some _ => (none :: r.units).reverse

/-- The characters and malformed units of a sequence of octets, in order. -/
def units (octets : List UInt8) : List (Option Char) :=
  (octets.foldl Reader.push {}).finish

/-- The text that the octets encode, if they are well formed. -/
def decode? (octets : List UInt8) : Option (List Char) := (units octets).mapM id

/-- The text that the octets encode, with U+FFFD for each malformed unit. -/
def decodeLossy (octets : List UInt8) : String :=
  String.ofList ((units octets).map (·.getD '\uFFFD'))

end ClassScript.Utf8
