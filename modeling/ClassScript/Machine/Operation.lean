/-
# Operators and functions of the language

What the operators and the functions that are part of the language do to values.
-/
import ClassScript.Machine
import ClassScript.Text.Blank

namespace ClassScript

variable {ε : Type}

def UnaryOp.apply (op : UnaryOp) (v : Value ε) : Except Fault (Value ε) :=
  match op, v with
  | .not, v => .ok (.bool !v.isTrue)
  | .negate, .number x => .ok (.number (-x))
  | .negate, v => .error (.unaryOperand .negate v.kind)

namespace BinaryOp

/-- An operator on numbers that is not an equality. -/
def onNumbers : BinaryOp → Float → Float → Value ε
  | .mul, x, y => .number (x * y)
  | .div, x, y => .number (x / y)
  | .add, x, y => .number (x + y)
  | .sub, x, y => .number (x - y)
  | .less, x, y => .bool (x < y)
  | .greater, x, y => .bool (x > y)
  | .lessEqual, x, y => .bool (x ≤ y)
  | .greaterEqual, x, y => .bool (x ≥ y)
  | .equal, x, y => .bool (x == y)
  | .notEqual, x, y => .bool (x != y)

/-- Equality is defined on all values, addition on numbers and on texts, and all else on numbers
only. -/
def apply (op : BinaryOp) (l r : Value ε) : Except Fault (Value ε) :=
  match op, l, r with
  | .equal, l, r => .ok (.bool (l.same r))
  | .notEqual, l, r => .ok (.bool !(l.same r))
  | .add, .text s, .text t => .ok (.text (s ++ t))
  | op, .number x, .number y => .ok (op.onNumbers x y)
  | op, l, r => .error (.binaryOperands op l.kind r.kind)

end BinaryOp

/-- Whether the left operand decides the value by itself. -/
def LogicalOp.settledBy (op : LogicalOp) (v : Value ε) : Bool :=
  match op with
  | .and => !v.isTrue
  | .or => v.isTrue

/-- The number that a value stands for: a number itself, or the number a text spells. -/
def Value.toNumber : Value ε → Except Fault (Value ε)
  | .number x => .ok (.number x)
  | .text s =>
    match Decimal.Numeral.read (Text.trim s) with
    | .ok x => .ok (.number x)
    | .error cause => .error (.notANumber s cause)
  | v => .error (.notNumeric v.kind)

namespace Run

/-- The outcome of a pure operation. -/
def ofExcept {α : Type} : Except Fault α → Run α
  | .ok a => pure a
  | .error fault => fail fault

/-- Calls a function of the language. -/
def native (n : Native) (args : List Value) : Run Value :=
  match n, args with
  | .clock, _ => do
    let x ← readClock
    pure (.number x)
  | .str, v :: _ => pure (.text v.display)
  | .type, v :: _ => pure (.text v.kind.name)
  | .num, v :: _ => ofExcept v.toNumber
  | _, [] => breach .missingArgument

end Run
end ClassScript
