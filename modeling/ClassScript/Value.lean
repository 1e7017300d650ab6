/-
# Values

What an expression of the language evaluates to. Numbers and texts are compared by
value; functions, classes and objects by identity, which is a number that is given
out once. A class is immutable and holds all classes it inherits from; what can
change about an object is not in its value but in the store.

A function keeps the environment it was declared in, and values know nothing about
environments but that: what stands for one is a parameter `ε`. For the machine it is
the number of a frame.
-/
import ClassScript.NameTable
import ClassScript.Scope.Analysis

namespace ClassScript

/-- A function that is part of the language. -/
inductive Native where
  | clock | str | type | num
  deriving DecidableEq, Repr

namespace Native

def name : Native → String
  | .clock => "clock"
  | .str => "str"
  | .type => "type"
  | .num => "num"

/-- The number of arguments it takes. -/
def arity : Native → Nat
  | .clock => 0
  | .str | .type | .num => 1

/-- All functions that are part of the language. -/
def all : List Native := [.clock, .str, .type, .num]

end Native

/-- A function together with the environment it was declared in. -/
structure Closure (ε : Type := Nat) where
  ident : Nat
  decl : FunctionDecl
  env : ε
  /-- Whether it sets up new objects. -/
  isInit : Bool

/-- What a class declares itself. -/
structure ClassBody (ε : Type := Nat) where
  ident : Nat
  name : String
  methods : NameTable (Closure ε)

/-- A class and the classes it inherits from, the nearest first. -/
structure Class (ε : Type := Nat) where
  own : ClassBody ε
  inherited : List (ClassBody ε) := []

variable {ε : Type}

namespace Closure

def name (c : Closure ε) : String := c.decl.name

/-- The number of arguments it takes. -/
def arity (c : Closure ε) : Nat := c.decl.params.length

end Closure

namespace Class

def ident (c : Class ε) : Nat := c.own.ident

def name (c : Class ε) : String := c.own.name

/-- The class and all it inherits from, the nearest first. -/
def chain (c : Class ε) : List (ClassBody ε) := c.own :: c.inherited

/-- A method of the class, or of the nearest class above it that has one. -/
def method? (c : Class ε) (name : String) : Option (Closure ε) :=
  c.chain.findSome? fun b => b.methods.find? name

/-- The method that sets up new objects. -/
def init? (c : Class ε) : Option (Closure ε) := c.method? initName

/-- The number of arguments that making an object takes. -/
def arity (c : Class ε) : Nat :=
  match c.init? with
  | some init => init.arity
  | none => 0

end Class

inductive Value (ε : Type := Nat) where
  | nil
  | bool (b : Bool)
  | number (x : Float)
  | text (s : String)
  | native (n : Native)
  | function (c : Closure ε)
  | cls (c : Class ε)
  /-- An object: where the store keeps its fields, and its class. -/
  | object (ident : Nat) (c : Class ε)

/-- The types of values, as programs see them. -/
inductive Kind where
  | nil | boolean | number | string | function | cls | object
  deriving DecidableEq, Repr

def Kind.name : Kind → String
  | .nil => "nil"
  | .boolean => "boolean"
  | .number => "number"
  | .string => "string"
  | .function => "function"
  | .cls => "class"
  | .object => "instance"

namespace Value

def kind : Value ε → Kind
  | .nil => .nil
  | .bool _ => .boolean
  | .number _ => .number
  | .text _ => .string
  | .native _ | .function _ => .function
  | .cls _ => .cls
  | .object _ _ => .object

/-- Only `nil` and `false` are not true. -/
def isTrue : Value ε → Bool
  | .nil => false
  | .bool b => b
  | _ => true

/-- The equality of the language. Values of different types are never equal. -/
def same : Value ε → Value ε → Bool
  | .nil, .nil => true
  | .bool a, .bool b => a == b
  | .number x, .number y => x == y
  | .text s, .text t => s == t
  | .native n, .native m => n = m
  | .function c, .function d => c.ident == d.ident
  | .cls c, .cls d => c.ident == d.ident
  | .object i _, .object j _ => i == j
  | _, _ => false

/-- How a value is printed. -/
def display : Value ε → String
  | .nil => "nil"
  | .bool b => if b then "true" else "false"
  | .number x => Decimal.Layout.plain.writeFloat x
  | .text s => s
  | .native n => "<fn " ++ n.name ++ ">"
  | .function c => "<fn " ++ c.name ++ ">"
  | .cls c => c.name
  | .object _ c => c.name ++ " instance"

/-- The number of arguments that a call takes, for a value that can be called. -/
def arity? : Value ε → Option Nat
  | .native n => some n.arity
  | .function c => some c.arity
  | .cls c => some c.arity
  | _ => none

end Value

/-- The value of a constant. -/
def Literal.value : Literal → Value ε
  | .nil => .nil
  | .bool b => .bool b
  | .number x => .number x
  | .text s => .text s

end ClassScript
