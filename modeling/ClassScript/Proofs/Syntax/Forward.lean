/-
# Parsers go forward

Every parser is built from steps that read one lexeme at most (`Built`). So whatever a
parser answers, it has gone forward: the lexemes left are an end of those it found and
no identity is given out twice (`Built.forward`). Parsing a text with or without errors
therefore never takes back an identity (`firstId_le_nextId`).
-/
import ClassScript.Proofs.Syntax.Moves

namespace ClassScript
namespace Parser

variable {α β : Type}

/-- The parsers that are made of steps which read one lexeme at most. -/
inductive Built : {α : Type} → Parser α → Prop where
  | pure {α : Type} (a : α) : Built (pure a : Parser α)
  | bind {α β : Type} {p : Parser α} {f : α → Parser β} : Built p → (∀ a, Built (f a)) →
      Built (p >>= f)
  | exhausted {α : Type} : Built (exhausted : Parser α)
  | refuse {α : Type} (problem : SyntaxProblem) (span : Span) :
      Built (refuse problem span : Parser α)
  | peek : Built peek
  | next : Built next
  | last : Built last
  | mint (span : Span) : Built (mint span)
  | enter (k : Construct) : Built (enter k)
  | leave : Built leave

/-- The cursor `c'` is `c`, gone forward. -/
structure Ahead (c c' : Cursor) : Prop where
  rest : c'.rest <:+ c.rest
  nextId : c.nextId ≤ c'.nextId

theorem Ahead.refl (c : Cursor) : Ahead c c := ⟨List.suffix_refl _, Nat.le_refl _⟩

theorem Ahead.trans {c c₁ c' : Cursor} (h : Ahead c c₁) (h' : Ahead c₁ c') : Ahead c c' :=
  ⟨h'.rest.trans h.rest, Nat.le_trans h.nextId h'.nextId⟩

/-- Where the cursor is after an answer, it is ahead of `c`. -/
def Reply.Ahead (c : Cursor) : Reply α → Prop
  | .ok _ c' | .refused _ c' => Parser.Ahead c c'
  | .exhausted => True

theorem Reply.Ahead.of_ahead {c c₁ : Cursor} {r : Reply α} (h : Reply.Ahead c₁ r)
    (hc : Parser.Ahead c c₁) : Reply.Ahead c r := by
  cases r with
  | ok | refused => exact hc.trans h
  | exhausted => trivial

/-- **A parser goes forward,** whether it succeeds or refuses. -/
theorem Built.forward {p : Parser α} (h : Built p) : ∀ c, Reply.Ahead c (p c) := by
  induction h with
  | pure a => exact fun c => .refl c
  | @bind α β p f _ _ ihp ihf =>
    intro c
    show Reply.Ahead c (Parser.bind p f c)
    have hp := ihp c
    unfold Parser.bind
    cases hc : p c with
    | ok a c₁ =>
      rw [hc] at hp
      exact (ihf a c₁).of_ahead hp
    | refused r c₁ => rw [hc] at hp; exact hp
    | exhausted => trivial
  | exhausted => exact fun _ => trivial
  | refuse => exact fun c => .refl c
  | peek | next =>
    intro c
    simp only [Parser.peek, Parser.next]
    split
    next h => exact ⟨by simp, Nat.le_refl _⟩
    next h => exact ⟨by simp [h], Nat.le_refl _⟩
    next h => exact ⟨by simp [h], Nat.le_refl _⟩
  | last => exact fun c => .refl c
  | mint => exact fun c => ⟨List.suffix_refl _, Nat.le_succ _⟩
  | enter | leave => exact fun c => ⟨List.suffix_refl _, Nat.le_refl _⟩

namespace Built

variable {p : Parser α} {expression : Parser Expr} {declaration statement : Parser Stmt}

theorem within {k : Construct} (h : Built p) : Built (within k p) :=
  .bind (.enter k) fun _ => .bind h fun a => .bind .leave fun _ => .pure a

theorem sees (s : Symbol) : Built (sees s) := .bind .peek fun _ => .pure _

theorem ite {b : Prop} [Decidable b] {q : Parser α} (hp : Built p) (hq : Built q) :
    Built (if b then p else q) := by
  split
  · exact hp
  · exact hq

theorem takeIf (s : Symbol) : Built (takeIf s) :=
  .bind .peek fun _ => .ite (.bind .next fun _ => .pure _) (.pure _)

theorem expect (s : Symbol) : Built (expect s) :=
  .bind .peek fun _ => .ite (.bind .next fun _ => .pure _) (.refuse _ _)

theorem expectName : Built expectName := by
  refine .bind .peek fun t => ?_
  split
  · exact .bind .next fun _ => .pure _
  · exact .refuse _ _

theorem commaList {place : α → Span} {tooMany : SyntaxProblem} (h : Built p) :
    ∀ (f : Nat) (found : List α), Built (commaList p place tooMany f found)
  | 0, _ => .exhausted
  | f + 1, found => by
    refine .bind h fun a => .ite (.refuse _ _) (.bind (.takeIf _) fun o => ?_)
    cases o with
    | none => exact .pure _
    | some => exact commaList h f _

theorem behind (s : Symbol) (h : Built p) : Built (behind s p) := by
  refine .bind (.takeIf _) fun o => ?_
  cases o with
  | none => exact .pure _
  | some => exact .bind h fun _ => .pure _

theorem unlessNext (s : Symbol) (h : Built p) : Built (unlessNext s p) :=
  .bind (.sees _) fun _ => .ite (.pure _) (.bind h fun _ => .pure _)

theorem commaListBefore (s : Symbol) {place : α → Span} {tooMany : SyntaxProblem} (h : Built p)
    (f : Nat) : Built (commaListBefore s p place tooMany f) :=
  .bind (.unlessNext _ (.commaList h _ _)) fun _ => .bind (.expect _) fun _ => .pure _

/-! ### Expressions -/

theorem chain {Op : Type} {find : Token → Option Op} {build : Mark → Op → Expr → Expr → Expr}
    {operand : Parser Expr} (h : Built operand) :
    ∀ (f : Nat) (left : Expr), Built (chain operand find build f left)
  | 0, _ => .exhausted
  | f + 1, left => by
    refine .bind .peek fun t => ?_
    split
    · exact .pure _
    · exact .bind .next fun _ => .bind h fun _ => .bind (.mint _) fun _ => chain h f _

theorem operand {unary : Parser Expr} (h : Built unary) (f : Nat) :
    ∀ level, Built (operand unary f level)
  | 0 => h
  | level + 1 => .bind (operand h f level) fun _ => .chain (operand h f level) _ _

theorem logicalAnd {unary : Parser Expr} (h : Built unary) (f : Nat) : Built (logicalAnd unary f) :=
  .bind (.operand h _ _) fun _ => .chain (.operand h _ _) _ _

theorem logicalOr {unary : Parser Expr} (h : Built unary) (f : Nat) : Built (logicalOr unary f) :=
  .bind (.logicalAnd h _) fun _ => .chain (.logicalAnd h _) _ _

theorem leaf (span : Span) (build : Mark → Expr) : Built (leaf span build) :=
  .bind .next fun _ => .bind (.mint _) fun _ => .pure _

theorem primary (h : Built expression) : Built (primary expression) := by
  refine .bind .peek fun t => ?_
  split
  any_goals exact .leaf _ _
  · exact .bind (.within (.bind .next fun _ => .bind (.expect _) fun _ => .expectName)) fun _ =>
      .bind (.mint _) fun _ => .pure _
  · exact .bind (.within (.bind .next fun _ => .bind h fun _ => .bind (.expect _) fun _ => .pure _))
      fun _ => .bind (.mint _) fun _ => .pure _
  · exact .refuse _ _

theorem arguments (h : Built expression) (f : Nat) : Built (arguments expression f) :=
  .commaListBefore _ h _

theorem suffixes (h : Built expression) : ∀ (f : Nat) (e : Expr), Built (suffixes expression f e)
  | 0, _ => .exhausted
  | f + 1, e => by
    refine .bind .peek fun t => ?_
    split
    · exact .bind (.within (.bind .next fun _ => .arguments h _)) fun _ =>
        .bind (.mint _) fun _ => suffixes h f _
    · exact .bind (.within (.bind .next fun _ => .expectName)) fun _ =>
        .bind (.mint _) fun _ => suffixes h f _
    · exact .pure _

theorem call (h : Built expression) (f : Nat) : Built (call expression f) :=
  .bind (.primary h) fun _ => .suffixes h _ _

theorem assignTo (target : Expr) (sign : Span) (value : Expr) :
    Built (assignTo target sign value) := by
  unfold Parser.assignTo
  split
  · exact .pure _
  · exact .pure _
  · exact .refuse _ _

end Built

mutual

theorem built_expression : ∀ f, Built (expression f)
  | 0 => .exhausted
  | f + 1 => by
    have h := Built.within (k := .expr) (built_assignment f)
    simpa only [expression, staged_eq] using h

theorem built_assignment : ∀ f, Built (assignment f)
  | 0 => .exhausted
  | f + 1 => by
    simp only [assignment, staged_eq]
    refine .bind (.logicalOr (built_unary f) _) fun target => .bind (.takeIf _) fun o => ?_
    cases o with
    | none => exact .pure _
    | some sign =>
      exact .bind (.within (.bind (built_assignment f) fun _ => .bind (.assignTo _ _ _) fun _ =>
        .pure _)) fun _ => .bind (.mint _) fun _ => .pure _

theorem built_unary : ∀ f, Built (unary f)
  | 0 => .exhausted
  | f + 1 => by
    simp only [unary, staged_eq]
    refine .bind .peek fun t => ?_
    split
    · exact .bind .next fun _ => .bind (built_unary f) fun _ => .bind (.mint _) fun _ => .pure _
    · exact .call (built_expression f) _

end

/-! ### Statements -/

namespace Built

variable {p : Parser α} {expression : Parser Expr} {declaration statement : Parser Stmt}

theorem upToBrace (h : Built p) : ∀ (f : Nat) (found : List α), Built (upToBrace p f found)
  | 0, _ => .exhausted
  | f + 1, _ => .bind .peek fun _ => .ite (.pure _) (.bind h fun _ => upToBrace h f _)

theorem block (h : Built declaration) (f : Nat) : Built (block declaration f) :=
  .within (.bind (.expect _) fun _ => .bind (.upToBrace h _ _) fun _ =>
    .bind (.expect _) fun _ => .pure _)

theorem function (h : Built declaration) (f : Nat) : Built (function declaration f) :=
  .within (.bind .expectName fun _ => .bind (.expect _) fun _ =>
    .bind (.commaListBefore _ .expectName _) fun _ => .bind (.block h _) fun _ => .pure _)

theorem superclass : Built superclass :=
  .bind .expectName fun _ => .bind (.mint _) fun _ => .pure _

theorem classDecl (h : Built declaration) (f : Nat) : Built (classDecl declaration f) :=
  .within (.bind (.expect _) fun _ => .bind .expectName fun _ => .bind (.behind _ .superclass) fun _ =>
    .bind (.expect _) fun _ => .bind (.upToBrace (.function h _) _ _) fun _ =>
      .bind (.expect _) fun _ => .pure _)

theorem funDecl (h : Built declaration) (f : Nat) : Built (funDecl declaration f) :=
  .bind .next fun _ => .bind (.function h _) fun _ => .bind .last fun _ => .pure _

theorem varDecl (h : Built expression) : Built (varDecl expression) :=
  .within (.bind (.expect _) fun _ => .bind .expectName fun _ => .bind (.behind _ h) fun _ =>
    .bind (.expect _) fun _ => .pure _)

theorem exprStmt (h : Built expression) : Built (exprStmt expression) :=
  .within (.bind h fun _ => .bind (.expect _) fun _ => .pure _)

theorem printStmt (h : Built expression) : Built (printStmt expression) :=
  .within (.bind (.expect _) fun _ => .bind h fun _ => .bind (.expect _) fun _ => .pure _)

theorem returnStmt (h : Built expression) : Built (returnStmt expression) :=
  .within (.bind (.expect _) fun _ => .bind (.unlessNext _ h) fun _ =>
    .bind (.expect _) fun _ => .pure _)

theorem ifStmt (he : Built expression) (hs : Built statement) :
    Built (ifStmt expression statement) :=
  .within (.bind (.expect _) fun _ => .bind (.expect _) fun _ => .bind he fun _ =>
    .bind (.expect _) fun _ => .bind hs fun _ => .bind (.behind _ hs) fun _ =>
      .bind .last fun _ => .pure _)

theorem whileStmt (he : Built expression) (hs : Built statement) :
    Built (whileStmt expression statement) :=
  .within (.bind (.expect _) fun _ => .bind (.expect _) fun _ => .bind he fun _ =>
    .bind (.expect _) fun _ => .bind hs fun _ => .bind .last fun _ => .pure _)

theorem forInit (h : Built expression) : Built (forInit expression) := by
  refine .bind .peek fun t => ?_
  split
  · exact .bind .next fun _ => .pure _
  · exact .bind (.varDecl h) fun _ => .pure _
  · exact .bind (.exprStmt h) fun _ => .pure _

theorem forCondition (sign : Span) : ∀ e, Built (forCondition sign e)
  | some _ => .pure _
  | none => .bind (.mint _) fun _ => .pure _

theorem forStmt (he : Built expression) (hs : Built statement) :
    Built (forStmt expression statement) :=
  .within (.bind (.expect _) fun _ => .bind (.expect _) fun _ => .bind (.forInit he) fun _ =>
    .bind (.unlessNext _ he) fun _ => .bind (.expect _) fun _ => .bind (.unlessNext _ he) fun _ =>
      .bind (.expect _) fun _ => .bind hs fun _ => .bind .last fun _ =>
        .bind (.forCondition _ _) fun _ => .pure _)

theorem blockStmt (h : Built declaration) (f : Nat) : Built (blockStmt declaration f) :=
  .bind .peek fun _ => .bind (.block h _) fun _ => .bind .last fun _ => .pure _

end Built

mutual

theorem built_declaration : ∀ f, Built (declaration f)
  | 0 => .exhausted
  | f + 1 => by
    simp only [declaration, staged_eq]
    refine .bind .peek fun t => ?_
    split
    · exact .classDecl (built_declaration f) _
    · exact .funDecl (built_declaration f) _
    · exact .varDecl (built_expression f)
    · exact built_statement f

theorem built_statement : ∀ f, Built (statement f)
  | 0 => .exhausted
  | f + 1 => by
    simp only [statement, staged_eq]
    refine .bind .peek fun t => ?_
    split
    · exact .forStmt (built_expression f) (built_statement f)
    · exact .ifStmt (built_expression f) (built_statement f)
    · exact .printStmt (built_expression f)
    · exact .returnStmt (built_expression f)
    · exact .whileStmt (built_expression f) (built_statement f)
    · exact .blockStmt (built_declaration f) _
    · exact .exprStmt (built_expression f)

end

end Parser

/-- Parsing statement after statement takes back no identity. -/
theorem Parse.nextId_le_statements (f : Nat) : ∀ (n : Nat) (c : Cursor),
    c.nextId ≤ (Parse.statements f n c).nextId
  | 0, c => Nat.le_refl _
  | n + 1, c => by
    have hd := (Parser.built_declaration f).forward { c with constructs := [.topLevel] }
    unfold Parse.statements
    dsimp only
    split
    · exact Nat.le_refl _
    · exact nextId_le_statements f n { c with rest := _, constructs := [.topLevel] }
    · split
      · exact Nat.le_refl _
      · split
        next s c' h =>
          rw [h] at hd
          exact Nat.le_trans hd.nextId (nextId_le_statements f n c')
        next r c' h =>
          rw [h] at hd
          let q := recover c'.last c'.rest
          exact Nat.le_trans hd.nextId
            (nextId_le_statements f n { c' with rest := q.rest, last := q.last })
        next => exact Nat.le_refl _

theorem firstId_le_nextId (firstId : Nat) (lexemes : List Lexeme) :
    firstId ≤ (parseLexemes firstId lexemes).nextId :=
  Parse.nextId_le_statements _ _ { rest := lexemes, nextId := firstId }

end ClassScript
