/-
# The grammar of expressions

    expression  = assignment
    assignment  = ( call "." )? NAME "=" assignment | or
    or          = and ( "or" and )*
    and         = operand 4 ( "and" operand 4 )*
    operand 0   = unary
    operand n+1 = operand n ( OPERATOR of level n+1, operand n )*
    unary       = ( "-" | "!" ) unary | call
    call        = primary ( "(" arguments? ")" | "." NAME )*
    arguments   = expression ( "," expression )*
    primary     = "true" | "false" | "nil" | "this" | NUMBER | TEXT | NAME
                | "(" expression ")" | "super" "." NAME

The parsers of `expression`, `assignment` and `unary` call themselves and take fuel,
which bounds how deep they nest and how many rounds each loop makes. The others are
built from the parsers of their parts.
-/
import ClassScript.Nesting
import ClassScript.Syntax.Cursor

namespace ClassScript.Parser

/-- Operands with operators between them, grouped from the left. The expression read so far is
`left`. -/
def chain {Op : Type} (operand : Parser Expr) (find : Token → Option Op)
    (build : Mark → Op → Expr → Expr → Expr) : Nat → Expr → Parser Expr
  | 0, _ => exhausted
  | f + 1, left => do
    let t ← peek
    match find t.token with
    | none => pure left
    | some op =>
      let _ ← next
      let right ← operand
      let mark ← mint (left.span.join right.span)
      chain operand find build f (build mark op left right)

/-- Operands with binary operators of levels up to `level` between them. -/
def operand (unary : Parser Expr) (f : Nat) : Nat → Parser Expr
  | 0 => unary
  | level + 1 => do
    let left ← operand unary f level
    chain (operand unary f level) (BinaryOp.atLevel? (level + 1)) Expr.binary f left

/-- The logical operator that a token is, if it is `op`. -/
def logicalOp? (op : LogicalOp) (t : Token) : Option LogicalOp :=
  match t with
  | .symbol s => if s = op.symbol then some op else none
  | _ => none

def logicalAnd (unary : Parser Expr) (f : Nat) : Parser Expr := do
  let left ← operand unary f BinaryOp.loosest
  chain (operand unary f BinaryOp.loosest) (logicalOp? .and) Expr.logical f left

def logicalOr (unary : Parser Expr) (f : Nat) : Parser Expr := do
  let left ← logicalAnd unary f
  chain (logicalAnd unary f) (logicalOp? .or) Expr.logical f left

/-- A constant or a name that is one token. -/
def leaf (span : Span) (build : Mark → Expr) : Parser Expr := do
  let _ ← next
  let mark ← mint span
  pure (build mark)

def primary (expression : Parser Expr) : Parser Expr := do
  let t ← peek
  match t.token with
  | .symbol .nilWord => leaf t.span (.literal · .nil)
  | .symbol .trueWord => leaf t.span (.literal · (.bool true))
  | .symbol .falseWord => leaf t.span (.literal · (.bool false))
  | .number x => leaf t.span (.literal · (.number x))
  | .text s => leaf t.span (.literal · (.text s))
  | .name s => leaf t.span (.variable · s)
  | .symbol .thisWord => leaf t.span .this
  | .symbol .superWord =>
    let method ← within .superAccess do
      let _ ← next
      let _ ← expect .dot
      expectName
    let mark ← mint (t.span.join method.span)
    pure (.super mark method.name)
  | .symbol .openParen =>
    let (inner, stop) ← within .group do
      let _ ← next
      let inner ← expression
      let stop ← expect .closeParen
      pure (inner, stop)
    let mark ← mint (t.span.join stop)
    pure (.group mark inner)
  | _ => refuse .expectedExpression t.span

/-- The arguments of a call up to the closing parenthesis, and its span. -/
def arguments (expression : Parser Expr) (f : Nat) : Parser (List Expr × Span) :=
  commaListBefore .closeParen expression Expr.span .tooManyArguments f

/-- Calls and property accesses behind the expression `e`. -/
def suffixes (expression : Parser Expr) : Nat → Expr → Parser Expr
  | 0, _ => exhausted
  | f + 1, e => do
    let t ← peek
    match t.token with
    | .symbol .openParen =>
      let (args, stop) ← within .call do
        let _ ← next
        arguments expression f
      let mark ← mint (e.span.join stop)
      suffixes expression f (.call mark e args)
    | .symbol .dot =>
      let name ← within .memberAccess do
        let _ ← next
        expectName
      let mark ← mint (e.span.join name.span)
      suffixes expression f (.get mark e name.name)
    | _ => pure e

def call (expression : Parser Expr) (f : Nat) : Parser Expr := do
  let e ← primary expression
  suffixes expression f e

/-- The assignment of `value` to `target`, which has to be a variable or a property. `sign` is the
span of the equals sign. -/
def assignTo (target : Expr) (sign : Span) (value : Expr) : Parser (Mark → Expr) :=
  match target with
  | .variable _ name => pure (.assign · name value)
  | .get _ object name => pure (.set · object name value)
  | _ => refuse .invalidTarget sign

mutual

def expression : Nat → Parser Expr
  | 0 => exhausted
  | f + 1 => fun c => staged f fun _ => within .expr (assignment f) c

def assignment : Nat → Parser Expr
  | 0 => exhausted
  | f + 1 => fun c => staged f fun _ => (do
    let target ← logicalOr (unary f) f
    match ← takeIf .equal with
    | none => pure target
    | some sign =>
      let (build, span) ← within .assignment do
        let value ← assignment f
        let build ← assignTo target sign value
        pure (build, target.span.join value.span)
      let mark ← mint span
      pure (build mark) : Parser Expr) c

def unary : Nat → Parser Expr
  | 0 => exhausted
  | f + 1 => fun c => staged f fun _ => (do
    let t ← peek
    match UnaryOp.ofToken? t.token with
    | some op =>
      let _ ← next
      let e ← unary f
      let mark ← mint (t.span.join e.span)
      pure (.unary mark op e)
    | none => call (expression f) f : Parser Expr) c

end

end ClassScript.Parser
