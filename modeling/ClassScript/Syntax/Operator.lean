/-
# Operators

Binary operators bind on four levels, the tightest first. The operators that do
not always evaluate their right operand are of a kind of their own.
-/
import ClassScript.Token

namespace ClassScript

inductive UnaryOp where
  | negate | not
  deriving DecidableEq, Repr

inductive BinaryOp where
  | mul | div | add | sub | less | greater | lessEqual | greaterEqual | equal | notEqual
  deriving DecidableEq, Repr

inductive LogicalOp where
  | and | or
  deriving DecidableEq, Repr

namespace UnaryOp

/-- The symbol that an operator is written with. -/
def symbol : UnaryOp → Symbol
  | .negate => .minus
  | .not => .bang

def ofToken? : Token → Option UnaryOp
  | .symbol .minus => some .negate
  | .symbol .bang => some .not
  | _ => none

end UnaryOp

namespace BinaryOp

/-- The symbol that an operator is written with. -/
def symbol : BinaryOp → Symbol
  | .mul => .star
  | .div => .slash
  | .add => .plus
  | .sub => .minus
  | .less => .less
  | .greater => .greater
  | .lessEqual => .lessEqual
  | .greaterEqual => .greaterEqual
  | .equal => .equalEqual
  | .notEqual => .bangEqual

/-- How loosely an operator binds, from one to `loosest`. -/
def level : BinaryOp → Nat
  | .mul | .div => 1
  | .add | .sub => 2
  | .less | .greater | .lessEqual | .greaterEqual => 3
  | .equal | .notEqual => 4

/-- The level of the operators that bind least. -/
def loosest : Nat := 4

def ofToken? : Token → Option BinaryOp
  | .symbol .star => some .mul
  | .symbol .slash => some .div
  | .symbol .plus => some .add
  | .symbol .minus => some .sub
  | .symbol .less => some .less
  | .symbol .greater => some .greater
  | .symbol .lessEqual => some .lessEqual
  | .symbol .greaterEqual => some .greaterEqual
  | .symbol .equalEqual => some .equal
  | .symbol .bangEqual => some .notEqual
  | _ => none

/-- The operator of a given level that a token is. -/
def atLevel? (level : Nat) (t : Token) : Option BinaryOp :=
  (ofToken? t).filter fun op => op.level == level

end BinaryOp

namespace LogicalOp

/-- The symbol that an operator is written with. -/
def symbol : LogicalOp → Symbol
  | .and => .andWord
  | .or => .orWord

end LogicalOp
end ClassScript
