/-
# The grammar

The grammar of the language as relations between sequences of tokens and trees.
`Expression r w e` says that the nonterminal `r` derives the tokens `w` and that `e`
is the tree of that derivation; `Sentence k w p` says the same for declarations and
statements. Trees are bare: they have neither identities nor spans (`Expr.bare`,
`Stmt.bare`).

A `Phrase` is a statement as it is written, with a `for` where the text has one;
`Phrase.stmt` puts the block and the loop in its place that it stands for, and
`Phrase.stmt_forLoop` says that they are those of `Stmt.forLoop`. Two rules are not
context-free: a call has at most `maxArguments` arguments and a function as many
parameters, and the statement in front of an `else` has no `if` at its end that could
take the `else` for itself (`Phrase.endsOpen`).
-/
import ClassScript.Syntax.Fault
import ClassScript.Syntax.Tree

namespace ClassScript

/-! ### Bare trees -/

def Span.blank : Span := .point 0

def Mark.blank : Mark := ⟨0, .blank⟩

mutual

/-- An expression without its identities and spans. -/
def Expr.bare : Expr → Expr
  | .literal _ v => .literal .blank v
  | .group _ e => .group .blank e.bare
  | .variable _ x => .variable .blank x
  | .assign _ x e => .assign .blank x e.bare
  | .unary _ op e => .unary .blank op e.bare
  | .binary _ op l r => .binary .blank op l.bare r.bare
  | .logical _ op l r => .logical .blank op l.bare r.bare
  | .call _ callee args => .call .blank callee.bare (Expr.bareOf args)
  | .get _ e x => .get .blank e.bare x
  | .set _ e x v => .set .blank e.bare x v.bare
  | .this _ => .this .blank
  | .super _ x => .super .blank x

def Expr.bareOf : List Expr → List Expr
  | [] => []
  | e :: es => e.bare :: Expr.bareOf es

end

def Declared.bare (d : Declared) : Declared := ⟨d.name, .blank⟩

def NameUse.bare (u : NameUse) : NameUse := ⟨.blank, u.name⟩

mutual

/-- A statement without its identities and spans. -/
def Stmt.bare : Stmt → Stmt
  | .expression _ e => .expression .blank e.bare
  | .print _ e => .print .blank e.bare
  | .var _ x init => .var .blank x (init.map Expr.bare)
  | .block _ body => .block .blank (Stmt.bareOf body)
  | .branch _ c yes no => .branch .blank c.bare yes.bare (Stmt.optionalBare no)
  | .loop _ c body => .loop .blank c.bare body.bare
  | .function _ d => .function .blank d.bare
  | .return _ value => .return .blank (value.map Expr.bare)
  | .classDecl _ name parent methods =>
    .classDecl .blank name.bare (parent.map NameUse.bare) (FunctionDecl.bareOf methods)

def Stmt.bareOf : List Stmt → List Stmt
  | [] => []
  | s :: ss => s.bare :: Stmt.bareOf ss

def Stmt.optionalBare : Option Stmt → Option Stmt
  | none => none
  | some s => some s.bare

def FunctionDecl.bare : FunctionDecl → FunctionDecl
  | .mk name params body => .mk name.bare (params.map Declared.bare) (Stmt.bareOf body)

def FunctionDecl.bareOf : List FunctionDecl → List FunctionDecl
  | [] => []
  | d :: ds => d.bare :: FunctionDecl.bareOf ds

end

@[simp] theorem Expr.bareOf_eq_map : ∀ es : List Expr, Expr.bareOf es = es.map Expr.bare
  | [] => rfl
  | e :: es => by simp [Expr.bareOf, Expr.bareOf_eq_map es]

@[simp] theorem Stmt.bareOf_eq_map : ∀ ss : List Stmt, Stmt.bareOf ss = ss.map Stmt.bare
  | [] => rfl
  | s :: ss => by simp [Stmt.bareOf, Stmt.bareOf_eq_map ss]

@[simp] theorem Stmt.optionalBare_eq_map : ∀ s : Option Stmt, Stmt.optionalBare s = s.map Stmt.bare
  | none => rfl
  | some _ => rfl

@[simp] theorem FunctionDecl.bareOf_eq_map : ∀ ds : List FunctionDecl,
    FunctionDecl.bareOf ds = ds.map FunctionDecl.bare
  | [] => rfl
  | d :: ds => by simp [FunctionDecl.bareOf, FunctionDecl.bareOf_eq_map ds]

@[simp] theorem Expr.span_bare (e : Expr) : e.bare.span = .blank := by
  cases e <;> rfl

@[simp] theorem Stmt.span_bare (s : Stmt) : s.bare.span = .blank := by
  cases s <;> rfl

/-- A `for` statement is bare if its parts are. -/
theorem Stmt.bare_forLoop (span : Span) (init : Option Stmt) (condition : Expr)
    (increment : Option Expr) (body : Stmt) :
    (Stmt.forLoop span init condition increment body).bare =
      Stmt.forLoop .blank (init.map Stmt.bare) condition.bare (increment.map Expr.bare)
        body.bare := by
  cases init <;> cases increment <;> simp [Stmt.forLoop, Stmt.bare]

/-! ### Statements as they are written -/

mutual

/-- A declaration or a statement as it is written. -/
inductive Phrase where
  | expression (value : Expr)
  | print (value : Expr)
  | var (name : String) (init : Option Expr)
  | block (body : List Phrase)
  | branch (condition : Expr) (yes : Phrase)
  | branchElse (condition : Expr) (yes no : Phrase)
  | loop (condition : Expr) (body : Phrase)
  | forLoop (init : Option Phrase) (condition increment : Option Expr) (body : Phrase)
  | function (decl : FunctionPhrase)
  | return (value : Option Expr)
  | classDecl (name : String) (superclass : Option String) (methods : List FunctionPhrase)

/-- A function or a method as it is written. -/
inductive FunctionPhrase where
  | mk (name : String) (params : List String) (body : List Phrase)

end

/-- Whether an `else` behind the statement would belong to an `if` at its end. -/
def Phrase.endsOpen : Phrase → Bool
  | .branch _ _ => true
  | .branchElse _ _ no => no.endsOpen
  | .loop _ body | .forLoop _ _ _ body => body.endsOpen
  | _ => false

/-- A name without the place of its declaration. -/
def Declared.ofName (name : String) : Declared := ⟨name, .blank⟩

/-- The condition of a `for`, which is `true` where none is written. -/
def Expr.orTrue (condition : Option Expr) : Expr := condition.getD (.literal .blank (.bool true))

mutual

/-- The tree of a statement. A `for` is `{ init while (condition) { body increment; } }`, where a
block that would hold one statement only is left out. -/
def Phrase.stmt : Phrase → Stmt
  | .expression e => .expression .blank e
  | .print e => .print .blank e
  | .var x init => .var .blank x init
  | .block body => .block .blank (Phrase.stmts body)
  | .branch c yes => .branch .blank c yes.stmt none
  | .branchElse c yes no => .branch .blank c yes.stmt (some no.stmt)
  | .loop c body => .loop .blank c body.stmt
  | .forLoop none c none body => .loop .blank (.orTrue c) body.stmt
  | .forLoop none c (some increment) body =>
    .loop .blank (.orTrue c) (.block .blank [body.stmt, .expression .blank increment])
  | .forLoop (some init) c none body =>
    .block .blank [init.stmt, .loop .blank (.orTrue c) body.stmt]
  | .forLoop (some init) c (some increment) body =>
    .block .blank [init.stmt,
      .loop .blank (.orTrue c) (.block .blank [body.stmt, .expression .blank increment])]
  | .function d => .function .blank d.decl
  | .return value => .return .blank value
  | .classDecl x parent methods =>
    .classDecl .blank (.ofName x) (parent.map (⟨.blank, ·⟩)) (FunctionPhrase.decls methods)

def Phrase.stmts : List Phrase → List Stmt
  | [] => []
  | p :: ps => p.stmt :: Phrase.stmts ps

def FunctionPhrase.decl : FunctionPhrase → FunctionDecl
  | .mk x params body => .mk (.ofName x) (params.map .ofName) (Phrase.stmts body)

def FunctionPhrase.decls : List FunctionPhrase → List FunctionDecl
  | [] => []
  | d :: ds => d.decl :: FunctionPhrase.decls ds

end

@[simp] theorem Phrase.stmts_eq_map : ∀ ps : List Phrase, Phrase.stmts ps = ps.map Phrase.stmt
  | [] => rfl
  | p :: ps => by simp [Phrase.stmts, Phrase.stmts_eq_map ps]

@[simp] theorem FunctionPhrase.decls_eq_map : ∀ ds : List FunctionPhrase,
    FunctionPhrase.decls ds = ds.map FunctionPhrase.decl
  | [] => rfl
  | d :: ds => by simp [FunctionPhrase.decls, FunctionPhrase.decls_eq_map ds]

@[simp] theorem Phrase.span_stmt (p : Phrase) : p.stmt.span = .blank := by
  cases p with
  | forLoop init _ increment _ => cases init <;> cases increment <;> simp [Phrase.stmt, Stmt.span]
  | _ => simp [Phrase.stmt, Stmt.span]

/-- **What is written as a `for` is the block and the loop of `Stmt.forLoop`.** -/
theorem Phrase.stmt_forLoop (init : Option Phrase) (condition increment : Option Expr)
    (body : Phrase) :
    (Phrase.forLoop init condition (increment.map Expr.bare) body).stmt =
      .forLoop .blank (init.map Phrase.stmt) (.orTrue condition) (increment.map Expr.bare)
        body.stmt := by
  cases init <;> cases increment <;> simp [Phrase.stmt, Stmt.forLoop]

/-! ### Derivations -/

namespace Grammar

/-- The nonterminals of expressions. -/
inductive Rank where
  | assignment | or | and
  /-- Operands with binary operators of levels up to `level`. -/
  | operand (level : Nat)
  | unary | call | primary

/-- Sequences with commas between them. -/
def commaSeparated : List (List Token) → List Token
  | [] => []
  | [w] => w
  | w :: v :: ws => w ++ .symbol .comma :: commaSeparated (v :: ws)

/-- The constants that are one token. -/
inductive Constant : Token → Literal → Prop where
  | nil : Constant (.symbol .nilWord) .nil
  | true : Constant (.symbol .trueWord) (.bool true)
  | false : Constant (.symbol .falseWord) (.bool false)
  | number (x : Float) : Constant (.number x) (.number x)
  | text (s : String) : Constant (.text s) (.text s)

/-- The nonterminal `r` derives the tokens, and the tree is that of the derivation. -/
inductive Expression : Rank → List Token → Expr → Prop where
  -- assignment = ( call "." )? NAME "=" assignment | or
  | assign {w e} (x : String) : Expression .assignment w e →
      Expression .assignment (.name x :: .symbol .equal :: w) (.assign .blank x e)
  | set {u w o e} (x : String) : Expression .call u o → Expression .assignment w e →
      Expression .assignment (u ++ .symbol .dot :: .name x :: .symbol .equal :: w)
        (.set .blank o x e)
  | ofOr {w e} : Expression .or w e → Expression .assignment w e
  -- or = and ( "or" and )*
  | ofAnd {w e} : Expression .and w e → Expression .or w e
  | or {u w l r} : Expression .or u l → Expression .and w r →
      Expression .or (u ++ .symbol .orWord :: w) (.logical .blank .or l r)
  -- and = operand 4 ( "and" operand 4 )*
  | ofOperand {w e} : Expression (.operand BinaryOp.loosest) w e → Expression .and w e
  | and {u w l r} : Expression .and u l → Expression (.operand BinaryOp.loosest) w r →
      Expression .and (u ++ .symbol .andWord :: w) (.logical .blank .and l r)
  -- operand n+1 = operand n ( OPERATOR of level n+1, operand n )*
  | lift {n w e} : Expression (.operand n) w e → Expression (.operand (n + 1)) w e
  | binary {n u w l r} (op : BinaryOp) : op.level = n + 1 → Expression (.operand (n + 1)) u l →
      Expression (.operand n) w r →
      Expression (.operand (n + 1)) (u ++ .symbol op.symbol :: w) (.binary .blank op l r)
  -- operand 0 = unary
  | ofUnary {w e} : Expression .unary w e → Expression (.operand 0) w e
  -- unary = ( "-" | "!" ) unary | call
  | unary {w e} (op : UnaryOp) : Expression .unary w e →
      Expression .unary (.symbol op.symbol :: w) (.unary .blank op e)
  | ofCall {w e} : Expression .call w e → Expression .unary w e
  -- call = primary ( "(" arguments? ")" | "." NAME )*
  | ofPrimary {w e} : Expression .primary w e → Expression .call w e
  | call {u callee} (args : List (List Token × Expr)) : Expression .call u callee →
      args.length ≤ maxArguments → (∀ a ∈ args, Expression .assignment a.1 a.2) →
      Expression .call
        (u ++ .symbol .openParen :: (commaSeparated (args.map Prod.fst) ++ [.symbol .closeParen]))
        (.call .blank callee (args.map Prod.snd))
  | get {u o} (x : String) : Expression .call u o →
      Expression .call (u ++ [.symbol .dot, .name x]) (.get .blank o x)
  -- primary = "true" | "false" | "nil" | NUMBER | TEXT | NAME | "this" | ...
  | constant {t v} : Constant t v → Expression .primary [t] (.literal .blank v)
  | name (x : String) : Expression .primary [.name x] (.variable .blank x)
  | this : Expression .primary [.symbol .thisWord] (.this .blank)
  | super (x : String) : Expression .primary [.symbol .superWord, .symbol .dot, .name x]
      (.super .blank x)
  | group {w e} : Expression .assignment w e →
      Expression .primary (.symbol .openParen :: (w ++ [.symbol .closeParen])) (.group .blank e)

/-- Some tokens that may be missing, in front of a mark. -/
inductive Optional (P : List Token → Expr → Prop) : List Token → Option Expr → Prop where
  | none : Optional P [] none
  | some {w e} : P w e → Optional P w (some e)

/-- The initializer of a variable. -/
inductive Initializer : List Token → Option Expr → Prop where
  | none : Initializer [] none
  | some {w e} : Expression .assignment w e → Initializer (.symbol .equal :: w) (some e)

/-- The superclass of a class. -/
def superclassTokens : Option String → List Token
  | none => []
  | some x => [.symbol .less, .name x]

/-- The nonterminals of statements. -/
inductive Category where
  | declaration | statement | function | varDecl | exprStmt | forInit

/-- The nonterminal `k` derives the tokens, and the phrase is that of the derivation. -/
inductive Sentence : Category → List Token → Phrase → Prop where
  -- declaration = classDecl | "fun" function | varDecl | statement
  | classDecl (x : String) (parent : Option String)
      (methods : List (List Token × FunctionPhrase)) :
      (∀ m ∈ methods, Sentence .function m.1 (.function m.2)) →
      Sentence .declaration
        (.symbol .classWord :: .name x :: (superclassTokens parent ++
          .symbol .openBrace :: ((methods.map Prod.fst).flatten ++ [.symbol .closeBrace])))
        (.classDecl x parent (methods.map Prod.snd))
  | funDecl {w p} : Sentence .function w p → Sentence .declaration (.symbol .funWord :: w) p
  | ofVarDecl {w p} : Sentence .varDecl w p → Sentence .declaration w p
  | ofStatement {w p} : Sentence .statement w p → Sentence .declaration w p
  -- function = NAME "(" parameters? ")" block
  | function (x : String) (params : List String) (body : List (List Token × Phrase)) :
      params.length ≤ maxArguments → (∀ d ∈ body, Sentence .declaration d.1 d.2) →
      Sentence .function
        (.name x :: .symbol .openParen :: (commaSeparated (params.map fun x => [.name x]) ++
          .symbol .closeParen :: .symbol .openBrace ::
            ((body.map Prod.fst).flatten ++ [.symbol .closeBrace])))
        (.function (.mk x params (body.map Prod.snd)))
  -- varDecl = "var" NAME ( "=" expression )? ";"
  | var {w init} (x : String) : Initializer w init →
      Sentence .varDecl (.symbol .varWord :: .name x :: (w ++ [.symbol .semicolon])) (.var x init)
  -- statement = exprStmt | forStmt | ifStmt | printStmt | returnStmt | whileStmt | block
  | ofExprStmt {w p} : Sentence .exprStmt w p → Sentence .statement w p
  | expression {w e} : Expression .assignment w e →
      Sentence .exprStmt (w ++ [.symbol .semicolon]) (.expression e)
  | print {w e} : Expression .assignment w e →
      Sentence .statement (.symbol .printWord :: (w ++ [.symbol .semicolon])) (.print e)
  | return {w value} : Optional (Expression .assignment) w value →
      Sentence .statement (.symbol .returnWord :: (w ++ [.symbol .semicolon])) (.return value)
  | block (body : List (List Token × Phrase)) : (∀ d ∈ body, Sentence .declaration d.1 d.2) →
      Sentence .statement
        (.symbol .openBrace :: ((body.map Prod.fst).flatten ++ [.symbol .closeBrace]))
        (.block (body.map Prod.snd))
  -- ifStmt = "if" "(" expression ")" statement ( "else" statement )?
  | branch {u w c yes} : Expression .assignment u c → Sentence .statement w yes →
      Sentence .statement
        (.symbol .ifWord :: .symbol .openParen :: (u ++ .symbol .closeParen :: w)) (.branch c yes)
  | branchElse {u v w c yes no} : Expression .assignment u c → Sentence .statement v yes →
      yes.endsOpen = false → Sentence .statement w no →
      Sentence .statement
        (.symbol .ifWord :: .symbol .openParen ::
          (u ++ .symbol .closeParen :: (v ++ .symbol .elseWord :: w)))
        (.branchElse c yes no)
  -- whileStmt = "while" "(" expression ")" statement
  | loop {u w c body} : Expression .assignment u c → Sentence .statement w body →
      Sentence .statement
        (.symbol .whileWord :: .symbol .openParen :: (u ++ .symbol .closeParen :: w))
        (.loop c body)
  -- forStmt = "for" "(" ( varDecl | exprStmt | ";" ) expression? ";" expression? ")" statement
  | forBare {u v w c increment body} : Optional (Expression .assignment) u c →
      Optional (Expression .assignment) v increment → Sentence .statement w body →
      Sentence .statement
        (.symbol .forWord :: .symbol .openParen :: .symbol .semicolon ::
          (u ++ .symbol .semicolon :: (v ++ .symbol .closeParen :: w)))
        (.forLoop none c increment body)
  | forInit {i u v w init c increment body} : Sentence .forInit i init →
      Optional (Expression .assignment) u c → Optional (Expression .assignment) v increment →
      Sentence .statement w body →
      Sentence .statement
        (.symbol .forWord :: .symbol .openParen ::
          (i ++ (u ++ .symbol .semicolon :: (v ++ .symbol .closeParen :: w))))
        (.forLoop (some init) c increment body)
  | initVar {w p} : Sentence .varDecl w p → Sentence .forInit w p
  | initExpr {w p} : Sentence .exprStmt w p → Sentence .forInit w p

/-- A program is a sequence of declarations. -/
inductive Program : List Token → List Phrase → Prop where
  | nil : Program [] []
  | cons {u w p ps} : Sentence .declaration u p → Program w ps → Program (u ++ w) (p :: ps)

end Grammar
end ClassScript
