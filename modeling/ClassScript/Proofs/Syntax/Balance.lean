/-
# Constructs are left as they are entered

A construct stays on the stack of the cursor as long as it is under way. Behind a success the
stack is what it was on entry, so every construct that is left is the one entered last, with
another one below it. Behind a refusal there are the constructs on top of it that had been begun
and not finished, the innermost first (`Agrees`). This is shown of all that parsers are made of
(`Balanced.bind` and its siblings), by induction on the fuel of all routines, and statement after
statement of whole parses.

Key definitions: `Quiet`, `Agrees`, `Balanced`.
Key theorems: `Balanced.within`, `Routine.balanced`, `iterates_iff`, `constructs_balanced`.
-/
import ClassScript.Proofs.Syntax.Places
import ClassScript.Proofs.Syntax.Situated

namespace ClassScript
namespace Situated

variable {α β : Type}

/-! ### Steps that begin no construct -/

/-- Wherever the cursor is after an answer, the constructs are `stack`. -/
def Keeps (stack : List Construct) : ClassScript.Reply α → Prop
  | .ok _ c | .refused _ c => c.constructs = stack
  | .exhausted => True

/-- The parser leaves the constructs as they are, whether it succeeds or refuses. -/
def Quiet (p : Parser α) : Prop := ∀ c, Keeps c.constructs (p c)

namespace Quiet

variable {p : Parser α}

theorem pure (a : α) : Quiet (Pure.pure a : Parser α) := fun _ => rfl

theorem bind {g : α → Parser β} (hp : Quiet p) (hg : ∀ a, Quiet (g a)) : Quiet (p >>= g) := by
  intro c
  show Keeps c.constructs (Parser.bind p g c)
  have hc := hp c
  unfold Parser.bind
  cases h : p c with
  | ok a c₁ =>
    rw [h] at hc
    exact Eq.subst (motive := fun ks => Keeps ks (g a c₁)) hc (hg a c₁)
  | refused r c₁ =>
    rw [h] at hc
    exact hc
  | exhausted => trivial

theorem exhausted : Quiet (Parser.exhausted : Parser α) := fun _ => trivial

theorem refuse (problem : SyntaxProblem) (span : Span) :
    Quiet (Parser.refuse problem span : Parser α) := fun _ => rfl

theorem peek : Quiet Parser.peek := by
  intro c
  unfold Parser.peek
  split <;> rfl

theorem next : Quiet Parser.next := by
  intro c
  unfold Parser.next
  split <;> rfl

theorem last : Quiet Parser.last := fun _ => rfl

theorem mint (span : Span) : Quiet (Parser.mint span) := fun _ => rfl

theorem ite {b : Prop} [Decidable b] {q : Parser α} (hp : Quiet p) (hq : Quiet q) :
    Quiet (if b then p else q) := by
  split
  · exact hp
  · exact hq

theorem sees (s : Symbol) : Quiet (Parser.sees s) := .bind .peek fun _ => .pure _

theorem takeIf (s : Symbol) : Quiet (Parser.takeIf s) :=
  .bind .peek fun _ => .ite (.bind .next fun _ => .pure _) (.pure _)

theorem expect (s : Symbol) : Quiet (Parser.expect s) :=
  .bind .peek fun _ => .ite (.bind .next fun _ => .pure _) (.refuse _ _)

theorem expectName : Quiet Parser.expectName := by
  refine .bind .peek fun t => ?_
  split
  · exact .bind .next fun _ => .pure _
  · exact .refuse _ _

theorem leaf (span : Span) (build : Mark → Expr) : Quiet (Parser.leaf span build) :=
  .bind .next fun _ => .bind (.mint _) fun _ => .pure _

theorem assignTo (target : Expr) (sign : Span) (value : Expr) :
    Quiet (Parser.assignTo target sign value) := by
  unfold Parser.assignTo
  split
  · exact .pure _
  · exact .pure _
  · exact .refuse _ _

theorem superclass : Quiet Parser.superclass :=
  .bind .expectName fun _ => .bind (.mint _) fun _ => .pure _

theorem forCondition (sign : Span) : ∀ e, Quiet (Parser.forCondition sign e)
  | some _ => .pure _
  | none => .bind (.mint _) fun _ => .pure _

end Quiet

/-! ### What goes through the grammar -/

/-- The answer of a parser, and of the same one that knows the constructs `under` way: they are
the same. The stack is what it was, and behind a refusal there are the constructs on it that had
been entered. -/
inductive Agrees (under stack : List Construct) :
    ClassScript.Reply α → Situated.Reply α → Prop
  | ok (a : α) {c : Cursor} (h : c.constructs = stack) : Agrees under stack (.ok a c) (.ok a c)
  | refused (r : Refusal) (entered : List Construct) {c : Cursor}
      (h : c.constructs = entered ++ stack) :
      Agrees under stack (.refused r c) (.refused r (entered ++ under) c)
  | exhausted : Agrees under stack .exhausted .exhausted

/-- The parsers agree wherever there is a construct on the stack, the outermost one at least. -/
def Balanced (p : Parser α) (t : Situated α) : Prop :=
  ∀ under c, c.constructs ≠ [] → Agrees under c.constructs (p c) (t under c)

namespace Balanced

variable {p : Parser α} {t : Situated α}

theorem pure (a : α) : Balanced (Pure.pure a) (Pure.pure a) := fun _ _ _ => .ok a rfl

theorem own (h : Quiet p) : Balanced p (own p) := by
  intro under c _
  have hc := h c
  unfold Situated.own
  cases hp : p c with
  | ok a c' =>
    rw [hp] at hc
    exact .ok a hc
  | refused r c' =>
    rw [hp] at hc
    exact .refused r [] hc
  | exhausted => exact .exhausted

theorem bind {g : α → Parser β} {u : α → Situated β} (h : Balanced p t)
    (hg : ∀ a, Balanced (g a) (u a)) : Balanced (p >>= g) (t >>= u) := by
  intro under c hc
  show Agrees under c.constructs (Parser.bind p g c) (Situated.bind t u under c)
  have hstep := h under c hc
  unfold Parser.bind Situated.bind
  generalize p c = x at hstep
  generalize t under c = y at hstep
  cases hstep with
  | @ok a c' hstack => exact hstack ▸ hg a under c' (hstack ▸ hc)
  | refused r entered hstack => exact .refused r entered hstack
  | exhausted => exact .exhausted

theorem ite {b : Prop} [Decidable b] {q : Parser α} {u : Situated α} (h : Balanced p t)
    (h' : Balanced q u) : Balanced (if b then p else q) (if b then t else u) := by
  by_cases hb : b
  · rwa [if_pos hb, if_pos hb]
  · rwa [if_neg hb, if_neg hb]

/-- **A construct is left as it was entered.** What is parsed inside of it leaves it on top of the
stack, above the constructs on entry, so it may be left; and a refusal leaves it there for good.
-/
theorem within {k : Construct} (h : Balanced p t) : Balanced (Parser.within k p) (within k t) := by
  intro under c hc
  show Agrees under c.constructs
    (Parser.bind p (fun a => Parser.bind Parser.leave fun _ => Parser.pure a)
      { c with constructs := k :: c.constructs })
    (Situated.bind (fun under => t (k :: under))
      (fun a => Situated.bind leave fun _ => Situated.pure a)
      under { c with constructs := k :: c.constructs })
  have hinner := h (k :: under) { c with constructs := k :: c.constructs } (by simp)
  dsimp only at hinner
  unfold Parser.bind Situated.bind
  dsimp only
  generalize p { c with constructs := k :: c.constructs } = x at hinner
  generalize t (k :: under) { c with constructs := k :: c.constructs } = y at hinner
  cases hinner with
  | @ok a c' hstack =>
    have hlength : 1 < c'.constructs.length := by
      have hpos := List.length_pos_of_ne_nil hc
      rw [hstack, List.length_cons]
      omega
    have htail : c'.constructs.tail = c.constructs := by
      rw [hstack, List.tail_cons]
    dsimp only [Parser.leave, leave]
    rw [if_pos hlength]
    exact .ok (c := { c' with constructs := c'.constructs.tail }) a htail
  | refused r entered hstack =>
    have hunder : entered ++ k :: under = (entered ++ [k]) ++ under := by simp
    dsimp only
    rw [hunder]
    exact .refused r (entered ++ [k]) (by simpa using hstack)
  | exhausted => exact .exhausted

theorem behind (s : Symbol) (h : Balanced p t) : Balanced (Parser.behind s p) (behind s t) := by
  refine .bind (.own (.takeIf s)) fun o => ?_
  cases o with
  | none => exact .pure _
  | some => exact .bind h fun _ => .pure _

theorem unlessNext (s : Symbol) (h : Balanced p t) :
    Balanced (Parser.unlessNext s p) (unlessNext s t) :=
  .bind (.own (.sees s)) fun _ => .ite (.pure _) (.bind h fun _ => .pure _)

theorem commaList (place : α → Span) (tooMany : SyntaxProblem) (h : Balanced p t) :
    ∀ (f : Nat) (found : List α),
      Balanced (Parser.commaList p place tooMany f found) (commaList t place tooMany f found)
  | 0, _ => .own .exhausted
  | f + 1, found => by
    refine .bind h fun a => .ite (.own (.refuse _ _)) (.bind (.own (.takeIf _)) fun o => ?_)
    cases o with
    | none => exact .pure _
    | some => exact commaList place tooMany h f (a :: found)

theorem commaListBefore (s : Symbol) (place : α → Span) (tooMany : SyntaxProblem)
    (h : Balanced p t) (f : Nat) :
    Balanced (Parser.commaListBefore s p place tooMany f) (commaListBefore s t place tooMany f) :=
  .bind (.unlessNext s (.commaList place tooMany h f [])) fun _ =>
    .bind (.own (.expect s)) fun _ => .pure _

theorem upToBrace (h : Balanced p t) :
    ∀ (f : Nat) (found : List α), Balanced (Parser.upToBrace p f found) (upToBrace t f found)
  | 0, _ => .own .exhausted
  | f + 1, found =>
    .bind (.own .peek) fun _ => .ite (.pure _) (.bind h fun a => upToBrace h f (a :: found))

/-! ### Expressions -/

variable {unary expression : Parser Expr} {unary' expression' : Situated Expr}

theorem chain {Op : Type} {operand : Parser Expr} {operand' : Situated Expr}
    (find : Token → Option Op) (build : Mark → Op → Expr → Expr → Expr)
    (h : Balanced operand operand') : ∀ (f : Nat) (left : Expr),
      Balanced (Parser.chain operand find build f left) (chain operand' find build f left)
  | 0, _ => .own .exhausted
  | f + 1, left => by
    refine .bind (.own .peek) fun t => ?_
    cases find t.token with
    | none => exact .pure left
    | some op =>
      exact .bind (.own .next) fun _ => .bind h fun _ => .bind (.own (.mint _)) fun _ =>
        chain find build h f _

theorem operand (h : Balanced unary unary') (f level : Nat) :
    Balanced (Parser.operand unary f level) (operand unary' f level) := by
  induction level with
  | zero => exact h
  | succ level ih => exact .bind ih fun _ => .chain _ _ ih f _

theorem logicalAnd (h : Balanced unary unary') (f : Nat) :
    Balanced (Parser.logicalAnd unary f) (logicalAnd unary' f) :=
  .bind (.operand h f _) fun _ => .chain _ _ (.operand h f _) f _

theorem logicalOr (h : Balanced unary unary') (f : Nat) :
    Balanced (Parser.logicalOr unary f) (logicalOr unary' f) :=
  .bind (.logicalAnd h f) fun _ => .chain _ _ (.logicalAnd h f) f _

theorem primary (h : Balanced expression expression') :
    Balanced (Parser.primary expression) (primary expression') := by
  refine .bind (.own .peek) fun t => ?_
  dsimp only
  cases t.token with
  | number x | text x | name x => exact .own (.leaf _ _)
  | endOfInput => exact .own (.refuse _ _)
  | symbol s =>
    cases s with
    | nilWord | trueWord | falseWord | thisWord => exact .own (.leaf _ _)
    | superWord =>
      exact .bind (.within (.bind (.own .next) fun _ => .bind (.own (.expect _)) fun _ =>
        .own .expectName)) fun _ => .bind (.own (.mint _)) fun _ => .pure _
    | openParen =>
      exact .bind (.within (.bind (.own .next) fun _ => .bind h fun _ =>
        .bind (.own (.expect _)) fun _ => .pure _)) fun _ => .bind (.own (.mint _)) fun _ => .pure _
    | _ => exact .own (.refuse _ _)

theorem arguments (h : Balanced expression expression') (f : Nat) :
    Balanced (Parser.arguments expression f) (arguments expression' f) :=
  .commaListBefore _ _ _ h f

theorem suffixes (h : Balanced expression expression') : ∀ (f : Nat) (e : Expr),
    Balanced (Parser.suffixes expression f e) (suffixes expression' f e)
  | 0, _ => .own .exhausted
  | f + 1, e => by
    refine .bind (.own .peek) fun t => ?_
    dsimp only
    cases t.token with
    | symbol s =>
      cases s with
      | openParen =>
        exact .bind (.within (.bind (.own .next) fun _ => .arguments h f)) fun _ =>
          .bind (.own (.mint _)) fun _ => suffixes h f _
      | dot =>
        exact .bind (.within (.bind (.own .next) fun _ => .own .expectName)) fun _ =>
          .bind (.own (.mint _)) fun _ => suffixes h f _
      | _ => exact .pure e
    | _ => exact .pure e

theorem call (h : Balanced expression expression') (f : Nat) :
    Balanced (Parser.call expression f) (call expression' f) :=
  .bind (.primary h) fun _ => .suffixes h f _

end Balanced

mutual

theorem expression_balanced : ∀ f, Balanced (Parser.expression f) (expression f)
  | 0 => .own .exhausted
  | f + 1 => by
    have h := Balanced.within (k := .expr) (assignment_balanced f)
    simpa only [Parser.expression, staged_eq, expression] using h

theorem assignment_balanced : ∀ f, Balanced (Parser.assignment f) (assignment f)
  | 0 => .own .exhausted
  | f + 1 => by
    simp only [Parser.assignment, staged_eq, assignment]
    refine .bind (.logicalOr (unary_balanced f) f) fun target => ?_
    refine .bind (.own (.takeIf _)) fun o => ?_
    cases o with
    | none => exact .pure target
    | some sign =>
      exact .bind (.within (.bind (assignment_balanced f) fun _ => .bind (.own (.assignTo _ _ _))
        fun _ => .pure _)) fun _ => .bind (.own (.mint _)) fun _ => .pure _

theorem unary_balanced : ∀ f, Balanced (Parser.unary f) (unary f)
  | 0 => .own .exhausted
  | f + 1 => by
    simp only [Parser.unary, staged_eq, unary]
    refine .bind (.own .peek) fun t => ?_
    cases UnaryOp.ofToken? t.token with
    | some op =>
      exact .bind (.own .next) fun _ => .bind (unary_balanced f) fun _ =>
        .bind (.own (.mint _)) fun _ => .pure _
    | none => exact .call (expression_balanced f) f

end

/-! ### Statements -/

namespace Balanced

variable {expression : Parser Expr} {declaration statement : Parser Stmt}
  {expression' : Situated Expr} {declaration' statement' : Situated Stmt}

theorem block (h : Balanced declaration declaration') (f : Nat) :
    Balanced (Parser.block declaration f) (block declaration' f) :=
  .within (.bind (.own (.expect _)) fun _ => .bind (.upToBrace h f []) fun _ =>
    .bind (.own (.expect _)) fun _ => .pure _)

theorem function (h : Balanced declaration declaration') (f : Nat) :
    Balanced (Parser.function declaration f) (function declaration' f) :=
  .within (.bind (.own .expectName) fun _ => .bind (.own (.expect _)) fun _ =>
    .bind (.commaListBefore _ _ _ (.own .expectName) f) fun _ =>
      .bind (.block h f) fun _ => .pure _)

theorem classDecl (h : Balanced declaration declaration') (f : Nat) :
    Balanced (Parser.classDecl declaration f) (classDecl declaration' f) :=
  .within (.bind (.own (.expect _)) fun _ => .bind (.own .expectName) fun _ =>
    .bind (.behind _ (.own .superclass)) fun _ => .bind (.own (.expect _)) fun _ =>
      .bind (.upToBrace (.function h f) f []) fun _ => .bind (.own (.expect _)) fun _ => .pure _)

theorem funDecl (h : Balanced declaration declaration') (f : Nat) :
    Balanced (Parser.funDecl declaration f) (funDecl declaration' f) :=
  .bind (.own .next) fun _ => .bind (.function h f) fun _ => .bind (.own .last) fun _ => .pure _

theorem varDecl (h : Balanced expression expression') :
    Balanced (Parser.varDecl expression) (varDecl expression') :=
  .within (.bind (.own (.expect _)) fun _ => .bind (.own .expectName) fun _ =>
    .bind (.behind _ h) fun _ => .bind (.own (.expect _)) fun _ => .pure _)

theorem exprStmt (h : Balanced expression expression') :
    Balanced (Parser.exprStmt expression) (exprStmt expression') :=
  .within (.bind h fun _ => .bind (.own (.expect _)) fun _ => .pure _)

theorem printStmt (h : Balanced expression expression') :
    Balanced (Parser.printStmt expression) (printStmt expression') :=
  .within (.bind (.own (.expect _)) fun _ => .bind h fun _ =>
    .bind (.own (.expect _)) fun _ => .pure _)

theorem returnStmt (h : Balanced expression expression') :
    Balanced (Parser.returnStmt expression) (returnStmt expression') :=
  .within (.bind (.own (.expect _)) fun _ => .bind (.unlessNext _ h) fun _ =>
    .bind (.own (.expect _)) fun _ => .pure _)

theorem ifStmt (he : Balanced expression expression') (hs : Balanced statement statement') :
    Balanced (Parser.ifStmt expression statement) (ifStmt expression' statement') :=
  .within (.bind (.own (.expect _)) fun _ => .bind (.own (.expect _)) fun _ => .bind he fun _ =>
    .bind (.own (.expect _)) fun _ => .bind hs fun _ => .bind (.behind _ hs) fun _ =>
      .bind (.own .last) fun _ => .pure _)

theorem whileStmt (he : Balanced expression expression') (hs : Balanced statement statement') :
    Balanced (Parser.whileStmt expression statement) (whileStmt expression' statement') :=
  .within (.bind (.own (.expect _)) fun _ => .bind (.own (.expect _)) fun _ => .bind he fun _ =>
    .bind (.own (.expect _)) fun _ => .bind hs fun _ => .bind (.own .last) fun _ => .pure _)

theorem forInit (h : Balanced expression expression') :
    Balanced (Parser.forInit expression) (forInit expression') := by
  refine .bind (.own .peek) fun t => ?_
  cases t.token with
  | symbol s =>
    cases s with
    | semicolon => exact .bind (.own .next) fun _ => .pure _
    | varWord => exact .bind (.varDecl h) fun _ => .pure _
    | _ => exact .bind (.exprStmt h) fun _ => .pure _
  | _ => exact .bind (.exprStmt h) fun _ => .pure _

theorem forStmt (he : Balanced expression expression') (hs : Balanced statement statement') :
    Balanced (Parser.forStmt expression statement) (forStmt expression' statement') :=
  .within (.bind (.own (.expect _)) fun _ => .bind (.own (.expect _)) fun _ =>
    .bind (.forInit he) fun _ => .bind (.unlessNext _ he) fun _ => .bind (.own (.expect _)) fun _ =>
      .bind (.unlessNext _ he) fun _ => .bind (.own (.expect _)) fun _ => .bind hs fun _ =>
        .bind (.own .last) fun _ => .bind (.own (.forCondition _ _)) fun _ => .pure _)

theorem blockStmt (h : Balanced declaration declaration') (f : Nat) :
    Balanced (Parser.blockStmt declaration f) (blockStmt declaration' f) :=
  .bind (.own .peek) fun _ => .bind (.block h f) fun _ => .bind (.own .last) fun _ => .pure _

end Balanced

mutual

theorem declaration_balanced : ∀ f, Balanced (Parser.declaration f) (declaration f)
  | 0 => .own .exhausted
  | f + 1 => by
    simp only [Parser.declaration, staged_eq, declaration]
    refine .bind (.own .peek) fun t => ?_
    cases t.token with
    | symbol s =>
      cases s with
      | classWord => exact .classDecl (declaration_balanced f) f
      | funWord => exact .funDecl (declaration_balanced f) f
      | varWord => exact .varDecl (expression_balanced f)
      | _ => exact statement_balanced f
    | _ => exact statement_balanced f

theorem statement_balanced : ∀ f, Balanced (Parser.statement f) (statement f)
  | 0 => .own .exhausted
  | f + 1 => by
    simp only [Parser.statement, staged_eq, statement]
    refine .bind (.own .peek) fun t => ?_
    cases t.token with
    | symbol s =>
      cases s with
      | forWord => exact .forStmt (expression_balanced f) (statement_balanced f)
      | ifWord => exact .ifStmt (expression_balanced f) (statement_balanced f)
      | printWord => exact .printStmt (expression_balanced f)
      | returnWord => exact .returnStmt (expression_balanced f)
      | whileWord => exact .whileStmt (expression_balanced f) (statement_balanced f)
      | openBrace => exact .blockStmt (declaration_balanced f) f
      | _ => exact .exprStmt (expression_balanced f)
    | _ => exact .exprStmt (expression_balanced f)

end

/-! ### Routines -/

/-- The routines that stand here are those of the parser. -/
theorem routine_iff {p : Nat → Parser α} : Parser.Routine p ↔ ∃ t, Routine p t := by
  refine ⟨fun h => ?_, fun ⟨t, h⟩ => ?_⟩
  · cases h with
    | declaration => exact ⟨_, .declaration⟩
    | classDecl => exact ⟨_, .classDecl⟩
    | classBody found => exact ⟨_, .classBody found⟩
    | function => exact ⟨_, .function⟩
    | parameters found => exact ⟨_, .parameters found⟩
    | varDecl => exact ⟨_, .varDecl⟩
    | statement => exact ⟨_, .statement⟩
    | block => exact ⟨_, .block⟩
    | blockBody found => exact ⟨_, .blockBody found⟩
    | exprStmt => exact ⟨_, .exprStmt⟩
    | printStmt => exact ⟨_, .printStmt⟩
    | returnStmt => exact ⟨_, .returnStmt⟩
    | ifStmt => exact ⟨_, .ifStmt⟩
    | whileStmt => exact ⟨_, .whileStmt⟩
    | forStmt => exact ⟨_, .forStmt⟩
    | expression => exact ⟨_, .expression⟩
    | assignment => exact ⟨_, .assignment⟩
    | logicalOr => exact ⟨_, .logicalOr⟩
    | orOperands left => exact ⟨_, .orOperands left⟩
    | logicalAnd => exact ⟨_, .logicalAnd⟩
    | andOperands left => exact ⟨_, .andOperands left⟩
    | operand level => exact ⟨_, .operand level⟩
    | operands level left => exact ⟨_, .operands level left⟩
    | unary => exact ⟨_, .unary⟩
    | call => exact ⟨_, .call⟩
    | suffixes e => exact ⟨_, .suffixes e⟩
    | arguments found => exact ⟨_, .arguments found⟩
    | primary => exact ⟨_, .primary⟩
  · cases h with
    | declaration => exact .declaration
    | classDecl => exact .classDecl
    | classBody found => exact .classBody found
    | function => exact .function
    | parameters found => exact .parameters found
    | varDecl => exact .varDecl
    | statement => exact .statement
    | block => exact .block
    | blockBody found => exact .blockBody found
    | exprStmt => exact .exprStmt
    | printStmt => exact .printStmt
    | returnStmt => exact .returnStmt
    | ifStmt => exact .ifStmt
    | whileStmt => exact .whileStmt
    | forStmt => exact .forStmt
    | expression => exact .expression
    | assignment => exact .assignment
    | logicalOr => exact .logicalOr
    | orOperands left => exact .orOperands left
    | logicalAnd => exact .logicalAnd
    | andOperands left => exact .andOperands left
    | operand level => exact .operand level
    | operands level left => exact .operands level left
    | unary => exact .unary
    | call => exact .call
    | suffixes e => exact .suffixes e
    | arguments found => exact .arguments found
    | primary => exact .primary

theorem Routine.balanced {p : Nat → Parser α} {t : Nat → Situated α} (h : Routine p t) (f : Nat) :
    Balanced (p f) (t f) := by
  cases h with
  | declaration => exact declaration_balanced f
  | classDecl => exact .classDecl (declaration_balanced f) f
  | classBody found => exact .upToBrace (.function (declaration_balanced f) f) f found
  | function => exact .function (declaration_balanced f) f
  | parameters found => exact .commaList _ _ (.own .expectName) f found
  | varDecl => exact .varDecl (expression_balanced f)
  | statement => exact statement_balanced f
  | block => exact .block (declaration_balanced f) f
  | blockBody found => exact .upToBrace (declaration_balanced f) f found
  | exprStmt => exact .exprStmt (expression_balanced f)
  | printStmt => exact .printStmt (expression_balanced f)
  | returnStmt => exact .returnStmt (expression_balanced f)
  | ifStmt => exact .ifStmt (expression_balanced f) (statement_balanced f)
  | whileStmt => exact .whileStmt (expression_balanced f) (statement_balanced f)
  | forStmt => exact .forStmt (expression_balanced f) (statement_balanced f)
  | expression => exact expression_balanced f
  | assignment => exact assignment_balanced f
  | logicalOr => exact .logicalOr (unary_balanced f) f
  | orOperands left => exact .chain _ _ (.logicalAnd (unary_balanced f) f) f left
  | logicalAnd => exact .logicalAnd (unary_balanced f) f
  | andOperands left => exact .chain _ _ (.operand (unary_balanced f) f _) f left
  | operand level => exact .operand (unary_balanced f) f level
  | operands level left => exact .chain _ _ (.operand (unary_balanced f) f level) f left
  | unary => exact unary_balanced f
  | call => exact .call (expression_balanced f) f
  | suffixes e => exact .suffixes (expression_balanced f) f e
  | arguments found => exact .commaList _ _ (expression_balanced f) f found
  | primary => exact .primary (expression_balanced f)

/-! ### Statement after statement -/

variable {c c' : Cursor} {results : List (Except SyntaxError Stmt)}

/-- The stack behind a refusal says which constructs were under way, so no two answers agree with
one of the parser's. -/
theorem Agrees.unique {under stack : List Construct} {x : ClassScript.Reply α} {y y' : Reply α}
    (h : Agrees under stack x y) (h' : Agrees under stack x y') : y = y' := by
  cases h with
  | ok a =>
    cases h'
    rfl
  | refused r entered hstack =>
    cases h' with
    | refused _ entered' hstack' =>
      rw [List.append_cancel_right (hstack.symm.trans hstack')]
  | exhausted =>
    cases h'
    rfl

theorem Gives.unique {t : Nat → Situated α} {under : List Construct} {y y' : Reply α}
    (h : Gives t under c y) (h' : Gives t under c y') : y = y' :=
  (h _ (Nat.le_refl _)).symm.trans (h' _ (Nat.le_refl _))

/-- A declaration at the top level is answered in one way, whatever the fuel. -/
theorem declaration_settles (c : Cursor) (hc : c.constructs = [.topLevel]) :
    ∃ x y, Parser.Gives Parser.declaration c x ∧ Gives declaration [] c y ∧
      Agrees [] [.topLevel] x y := by
  obtain ⟨x, hx, hsettled⟩ := Parser.Routine.declaration.settles c
  have hagrees : ∀ f, 3 * c.rest.length + 6 ≤ f →
      Agrees [] [.topLevel] x (declaration f [] c) := by
    intro f hf
    have hbalanced := declaration_balanced f [] c (by simp [hc])
    rwa [hsettled f hf, hc] at hbalanced
  exact ⟨x, _, ⟨hx, _, hsettled⟩, fun f hf => (hagrees f hf).unique (hagrees _ (Nat.le_refl _)),
    hagrees _ (Nat.le_refl _)⟩

/-- At the top level the construct of an error is the innermost one that was under way. -/
theorem Agrees.error_eq {x : ClassScript.Reply α} {r : Refusal} {under : List Construct}
    (h : Agrees [] [.topLevel] x (.refused r under c)) :
    x = .refused r c ∧ r.error c = ⟨r.problem, under.headD .topLevel, r.span⟩ := by
  cases h with
  | refused _ entered hstack =>
    refine ⟨rfl, ?_⟩
    unfold Refusal.error
    rw [hstack, List.append_nil]
    cases entered <;> rfl

/-- **A whole parse has the constructs under way for those of its errors.** -/
theorem iterates_iff : Iterates c results ↔ Parse.Iterates c results := by
  constructor
  · intro h
    induction h with
    | ended hend => exact .ended hend
    | lexical hc _ ih => exact .lexical hc ih
    | @statement c c' t rest s results hc ht hgives _ ih =>
      obtain ⟨x, y, hx, hy, hagrees⟩ := declaration_settles { c with constructs := [.topLevel] } rfl
      rw [hy.unique hgives] at hagrees
      cases hagrees
      exact .statement hc ht hx ih
    | @refused c c' t rest r under results hc ht hgives _ ih =>
      obtain ⟨x, y, hx, hy, hagrees⟩ := declaration_settles { c with constructs := [.topLevel] } rfl
      rw [hy.unique hgives] at hagrees
      obtain ⟨rfl, herror⟩ := hagrees.error_eq
      rw [← herror]
      exact .refused hc ht hx ih
  · intro h
    induction h with
    | ended hend => exact .ended hend
    | lexical hc _ ih => exact .lexical hc ih
    | @statement c c' t rest s results hc ht hgives _ ih =>
      obtain ⟨x, y, hx, hy, hagrees⟩ := declaration_settles { c with constructs := [.topLevel] } rfl
      rw [hx.unique hgives] at hagrees
      cases hagrees
      exact .statement hc ht hy ih
    | @refused c c' t rest r results hc ht hgives _ ih =>
      obtain ⟨x, y, hx, hy, hagrees⟩ := declaration_settles { c with constructs := [.topLevel] } rfl
      rw [hx.unique hgives] at hagrees
      cases hagrees with
      | refused _ entered hstack =>
        rw [(Agrees.refused (α := Stmt) r entered hstack).error_eq.2]
        exact .refused hc ht hy ih

/-- **The constructs entered are balanced.** Each routine of the parser, started with any
constructs on the stack, the outermost one at least, never leaves a construct with none below it.
Behind a success the stack is what it was on entry. Behind a refusal the stack on entry lies below
the constructs that had been begun and not finished, and the error reports the innermost of them,
or the one on top on entry if there is none. It answers if it is given fuel in proportion to the
lexemes left. Statement after statement, the errors of a parse report the innermost construct that
was under way, and the top level if none was. -/
theorem constructs_balanced :
    (∀ (α : Type) (p : Nat → Parser α), Parser.Routine p ↔ ∃ t, Routine p t) ∧
    (∀ (α : Type) (p : Nat → Parser α) (t : Nat → Situated α), Routine p t →
      ∀ (f : Nat) (under : List Construct) (c : Cursor), c.constructs ≠ [] →
        (∃ a c', p f c = .ok a c' ∧ t f under c = .ok a c' ∧ c'.constructs = c.constructs) ∨
        (∃ r entered c', p f c = .refused r c' ∧ t f under c = .refused r (entered ++ under) c' ∧
          c'.constructs = entered ++ c.constructs ∧
          (r.error c').construct = (entered ++ c.constructs).headD .topLevel) ∨
        (p f c = .exhausted ∧ t f under c = .exhausted ∧ f < 3 * c.rest.length + 6)) ∧
    ∀ (firstId : Nat) (items : List Lexeme) (results : List (Except SyntaxError Stmt)),
      Iterates { rest := items, nextId := firstId } results ↔
        results = (parseLexemes firstId items).results := by
  refine ⟨fun α p => routine_iff, fun α p t ht f under c hc => ?_, fun firstId items results => ?_⟩
  · have hagrees := ht.balanced f under c hc
    cases hpf : p f c with
    | ok a c' =>
      rw [hpf] at hagrees
      generalize t f under c = y at hagrees ⊢
      cases hagrees with
      | ok _ hstack => exact .inl ⟨a, c', rfl, rfl, hstack⟩
    | refused r c' =>
      rw [hpf] at hagrees
      generalize t f under c = y at hagrees ⊢
      cases hagrees with
      | refused _ entered hstack =>
        refine .inr (.inl ⟨r, entered, c', rfl, rfl, hstack, ?_⟩)
        unfold Refusal.error
        rw [hstack]
    | exhausted =>
      have hfuel : f < 3 * c.rest.length + 6 := by
        obtain ⟨x, hx, hsettled⟩ := (routine_iff.mpr ⟨t, ht⟩).settles c
        by_contra hf
        exact hx ((hsettled f (by omega)).symm.trans hpf)
      rw [hpf] at hagrees
      generalize t f under c = y at hagrees ⊢
      cases hagrees
      exact .inr (.inr ⟨rfl, rfl, hfuel⟩)
  · have hparse := parseLexemes_iterates firstId items
    rw [iterates_iff]
    refine ⟨fun h => h.unique hparse, ?_⟩
    rintro rfl
    exact hparse

/-- The lexemes of `fun g() { f((x; }`, where two parentheses are left open. -/
def unclosed : List Lexeme :=
  [.ok ⟨.symbol .funWord, ⟨0, 3⟩, 1⟩, .ok ⟨.name "g", ⟨4, 5⟩, 1⟩,
    .ok ⟨.symbol .openParen, ⟨5, 6⟩, 1⟩, .ok ⟨.symbol .closeParen, ⟨6, 7⟩, 1⟩,
    .ok ⟨.symbol .openBrace, ⟨8, 9⟩, 1⟩, .ok ⟨.name "f", ⟨10, 11⟩, 1⟩,
    .ok ⟨.symbol .openParen, ⟨11, 12⟩, 1⟩, .ok ⟨.symbol .openParen, ⟨12, 13⟩, 1⟩,
    .ok ⟨.name "x", ⟨13, 14⟩, 1⟩, .ok ⟨.symbol .semicolon, ⟨14, 15⟩, 1⟩,
    .ok ⟨.symbol .closeBrace, ⟨16, 17⟩, 1⟩]

/-- The innermost group reports the semicolon. The brace behind it begins a statement of its own,
and none of the seven constructs is left over. -/
theorem constructs_balanced_unclosed :
    (∃ r c', declaration 39 [] { rest := unclosed, constructs := [.block, .topLevel] } =
        .refused r [.group, .expr, .call, .expr, .exprStmt, .block, .funDecl] c' ∧
      c'.constructs =
        [.group, .expr, .call, .expr, .exprStmt, .block, .funDecl, .block, .topLevel]) ∧
    ∃ p : Parse, Iterates { rest := unclosed } p.results ∧
      p.errors =
        [⟨.expectedSymbol .closeParen, .group, ⟨14, 15⟩⟩,
          ⟨.expectedExpression, .expr, ⟨16, 17⟩⟩] := by
  obtain ⟨-, hroutines, hparses⟩ := constructs_balanced
  refine ⟨?_, _, (hparses 0 unclosed _).mpr rfl, by decide +kernel⟩
  have hstack : (match Parser.declaration 39
        { rest := unclosed, constructs := [.block, .topLevel] } with
      | .refused _ c' => c'.constructs ==
          [.group, .expr, .call, .expr, .exprStmt, .block, .funDecl] ++ [.block, .topLevel]
      | _ => false) = true := by
    decide +kernel
  rcases hroutines _ _ _ .declaration 39 [] { rest := unclosed, constructs := [.block, .topLevel] }
      (by simp) with
    ⟨a, c', hp, -⟩ | ⟨r, entered, c', hp, ht, hc', -⟩ | ⟨hp, -⟩
  · rw [hp] at hstack
    cases hstack
  · rw [hp] at hstack
    have heq := beq_iff_eq.mp hstack
    obtain rfl := List.append_cancel_right (hc'.symm.trans heq)
    exact ⟨r, c', ht, heq⟩
  · rw [hp] at hstack
    cases hstack

end Situated

end ClassScript
