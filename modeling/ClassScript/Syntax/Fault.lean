/-
# Syntax errors

A syntax error says what was wrong, where, and in which construct: the innermost
one that had been entered and not finished.
-/
import ClassScript.Token

namespace ClassScript

/-- The constructs of the grammar that an error can lie in. -/
inductive Construct where
  | topLevel | varDecl | funDecl | classDecl | block
  | exprStmt | printStmt | returnStmt | ifStmt | whileStmt | forStmt
  | expr | assignment | call | memberAccess | superAccess | group
  deriving DecidableEq, Repr

/-- How a message names a construct. -/
def Construct.name : Construct → String
  | .topLevel => "declaration"
  | .varDecl => "variable declaration"
  | .funDecl => "function declaration"
  | .classDecl => "class declaration"
  | .block => "block"
  | .exprStmt => "expression statement"
  | .printStmt => "print statement"
  | .returnStmt => "return statement"
  | .ifStmt => "if statement"
  | .whileStmt => "while statement"
  | .forStmt => "for statement"
  | .expr => "expression"
  | .assignment => "assignment"
  | .call => "call"
  | .memberAccess => "property access"
  | .superAccess => "superclass method access"
  | .group => "parenthesized expression"

/-- The greatest number of arguments of a call and of parameters of a function. -/
def maxArguments : Nat := 255

/-- What can be wrong with a sequence of lexemes. -/
inductive SyntaxProblem where
  /-- A lexeme is itself an error. -/
  | lexical (error : LexError)
  | expectedExpression
  | expectedSymbol (symbol : Symbol)
  | expectedName
  | invalidTarget
  | tooManyArguments
  | tooManyParameters
  deriving DecidableEq, Repr

structure SyntaxError where
  problem : SyntaxProblem
  construct : Construct
  span : Span
  deriving DecidableEq, Repr

namespace SyntaxError

/-- The message of the error that a lexeme is, if that is the problem. -/
def cause (e : SyntaxError) : Option String :=
  match e.problem with
  | .lexical error => some error.message
  | _ => none

/-- The message. A lexeme that is an error describes itself. -/
def message (e : SyntaxError) : String :=
  let titled (detail : String) := Diagnostic.message "syntax error" (some detail) none
  match e.problem with
  | .lexical error => error.message
  | .expectedExpression => titled "expected start of expression"
  | .expectedSymbol s => titled ("expected '" ++ s.text ++ "' in " ++ e.construct.name)
  | .expectedName => titled ("expected identifier in " ++ e.construct.name)
  | .invalidTarget => titled "invalid assignment target"
  | .tooManyArguments => titled ("can't have more than " ++ toString maxArguments ++ " arguments")
  | .tooManyParameters => titled ("can't have more than " ++ toString maxArguments ++ " parameters")

end SyntaxError
end ClassScript
