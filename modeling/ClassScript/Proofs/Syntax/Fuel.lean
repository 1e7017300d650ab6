/-
# Parsers with more fuel

Two parsers that differ in their fuel alone take the same steps until the one that has less
runs out of it (`Paired`). A refusal names the token that was looked at last, or it comes too
late: behind something that cannot be empty, whatever that was. So one walk through the grammar
(`declaration_paired`) says of all parsers what they do next to each other.

Key theorem: `Paired.refines`, by which more fuel keeps an answer.
-/
import ClassScript.Proofs.Syntax.Parallel

namespace ClassScript.Parser

variable {α β : Type} {seen : Option PlacedToken} {f f' : Nat}

/-- The same parser twice, of which the first may run out of fuel. The next token is `seen`, if
that is one. -/
inductive Paired : {α : Type} → Option PlacedToken → Parser α → Parser α → Prop where
  | pure {α : Type} {seen : Option PlacedToken} (a : α) : Paired seen (pure a) (pure a)
  | bind {α β : Type} {seen : Option PlacedToken} {p p' : Parser α} {g g' : α → Parser β} :
      Paired seen p p' → (∀ a, Paired none (g a) (g' a)) → Paired seen (p >>= g) (p' >>= g')
  | exhausted {α : Type} {seen : Option PlacedToken} {p : Parser α} : Paired seen exhausted p
  | look {α : Type} {seen : Option PlacedToken} {g g' : PlacedToken → Parser α} :
      (∀ t, Paired (some t) (g t) (g' t)) → Paired seen (peek >>= g) (peek >>= g')
  | next {seen : Option PlacedToken} : Paired seen next next
  | last {seen : Option PlacedToken} : Paired seen last last
  | mint {seen : Option PlacedToken} (span : Span) : Paired seen (mint span) (mint span)
  | enter {seen : Option PlacedToken} (k : Construct) : Paired seen (enter k) (enter k)
  | leave {seen : Option PlacedToken} : Paired seen leave leave
  | refuse {α : Type} {t : PlacedToken} (problem : SyntaxProblem) :
      Paired (some t) (refuse problem t.span : Parser α) (refuse problem t.span)
  | tooLate {α β : Type} {seen : Option PlacedToken} {p p' : Parser α} {problem : SyntaxProblem}
      {place : α → Span} : Paired seen p p' → Finds p →
      Paired seen (p >>= fun a => (refuse problem (place a) : Parser β))
        (p' >>= fun a => refuse problem (place a))
  | unseen {α : Type} {seen : Option PlacedToken} {p p' : Parser α} : Paired none p p' →
      Paired seen p p'

/-- Where `p` answers, `p'` gives the same answer. -/
def Refines (p p' : Parser α) : Prop := ∀ c, p c ≠ .exhausted → p' c = p c

theorem Refines.bind {p p' : Parser α} {g g' : α → Parser β} (hp : Refines p p')
    (hg : ∀ a, Refines (g a) (g' a)) : Refines (p >>= g) (p' >>= g') := by
  intro c hc
  show Parser.bind p' g' c = Parser.bind p g c
  change Parser.bind p g c ≠ _ at hc
  unfold Parser.bind at hc ⊢
  cases hr : p c with
  | ok a c₁ =>
    rw [hr] at hc
    rw [hp c (by simp [hr]), hr]
    exact hg a c₁ hc
  | refused r c₁ => rw [hp c (by simp [hr]), hr]
  | exhausted => simp [hr] at hc

/-- **More fuel keeps an answer.** -/
theorem Paired.refines {p p' : Parser α} (h : Paired seen p p') : Refines p p' := by
  induction h with
  | pure | next | last | mint | enter | leave | refuse => exact fun _ _ => rfl
  | bind _ _ ihp ihg => exact ihp.bind ihg
  | exhausted => exact fun _ hc => absurd rfl hc
  | look _ ih => exact .bind (fun _ _ => rfl) ih
  | tooLate _ _ ih => exact ih.bind fun _ _ _ => rfl
  | unseen _ ih => exact ih

namespace Paired

variable {p p' : Parser α}

theorem within {k : Construct} (h : Paired none p p') : Paired seen (within k p) (within k p') :=
  .bind (.enter k) fun _ => .bind h fun a => .bind .leave fun _ => .pure a

theorem ite {b : Prop} [Decidable b] {q q' : Parser α} (hp : Paired seen p p')
    (hq : Paired seen q q') : Paired seen (if b then p else q) (if b then p' else q') := by
  split
  · exact hp
  · exact hq

theorem sees (s : Symbol) : Paired seen (sees s) (sees s) := .look fun _ => .pure _

theorem takeIf (s : Symbol) : Paired seen (takeIf s) (takeIf s) :=
  .look fun _ => .ite (.bind .next fun _ => .pure _) (.pure _)

theorem expect (s : Symbol) : Paired seen (expect s) (expect s) :=
  .look fun _ => .ite (.bind .next fun _ => .pure _) (.refuse _)

theorem expectName : Paired seen expectName expectName := by
  refine .look fun t => ?_
  split
  · exact .bind .next fun _ => .pure _
  · exact .refuse _

/-- An item that is one too many is read before it is refused. -/
theorem commaList {place : α → Span} {tooMany : SyntaxProblem} (h : Paired none p p')
    (hfinds : Finds p) : ∀ {f f' : Nat}, f ≤ f' → ∀ found : List α,
    Paired none (commaList p place tooMany f found) (commaList p' place tooMany f' found)
  | 0, _, _, _ => .exhausted
  | f + 1, f' + 1, hf, found => by
    unfold Parser.commaList
    by_cases hfull : maxArguments ≤ found.length
    · simp only [if_pos hfull]
      exact .tooLate h hfinds
    · simp only [if_neg hfull]
      refine .bind h fun a => .bind (.takeIf _) fun o => ?_
      cases o with
      | none => exact .pure _
      | some => exact commaList h hfinds (Nat.le_of_succ_le_succ hf) _

theorem behind (s : Symbol) (h : Paired none p p') : Paired seen (behind s p) (behind s p') := by
  refine .bind (.takeIf _) fun o => ?_
  cases o with
  | none => exact .pure _
  | some => exact .bind h fun _ => .pure _

theorem unlessNext (s : Symbol) (h : Paired none p p') :
    Paired seen (unlessNext s p) (unlessNext s p') :=
  .bind (.sees _) fun _ => .ite (.pure _) (.bind h fun _ => .pure _)

theorem commaListBefore (s : Symbol) {place : α → Span} {tooMany : SyntaxProblem}
    (h : Paired none p p') (hfinds : Finds p) (hf : f ≤ f') :
    Paired seen (commaListBefore s p place tooMany f) (commaListBefore s p' place tooMany f') :=
  .bind (.unlessNext _ (.commaList h hfinds hf _)) fun _ => .bind (.expect _) fun _ => .pure _

theorem upToBrace (h : Paired none p p') : ∀ {f f' : Nat}, f ≤ f' → ∀ found : List α,
    Paired none (upToBrace p f found) (upToBrace p' f' found)
  | 0, _, _, _ => .exhausted
  | _ + 1, _ + 1, hf, _ =>
    .look fun _ => .ite (.pure _)
      (.bind (.unseen h) fun _ => upToBrace h (Nat.le_of_succ_le_succ hf) _)

/-! ### Expressions -/

theorem chain {Op : Type} {find : Token → Option Op} {build : Mark → Op → Expr → Expr → Expr}
    {operand operand' : Parser Expr} (h : Paired none operand operand') :
    ∀ {f f' : Nat}, f ≤ f' → ∀ left : Expr,
      Paired none (chain operand find build f left) (chain operand' find build f' left)
  | 0, _, _, _ => .exhausted
  | f + 1, f' + 1, hf, left => by
    refine .look fun t => ?_
    split
    · exact .pure _
    · exact .bind .next fun _ => .bind h fun _ => .bind (.mint _) fun _ =>
        chain h (Nat.le_of_succ_le_succ hf) _

variable {unary unary' expression expression' : Parser Expr}

theorem operand (h : Paired none unary unary') (hf : f ≤ f') (level : Nat) :
    Paired none (operand unary f level) (operand unary' f' level) := by
  induction level with
  | zero => exact h
  | succ level ih => exact .bind ih fun _ => .chain ih hf _

theorem logicalAnd (h : Paired none unary unary') (hf : f ≤ f') :
    Paired none (logicalAnd unary f) (logicalAnd unary' f') :=
  .bind (.operand h hf _) fun _ => .chain (.operand h hf _) hf _

theorem logicalOr (h : Paired none unary unary') (hf : f ≤ f') :
    Paired none (logicalOr unary f) (logicalOr unary' f') :=
  .bind (.logicalAnd h hf) fun _ => .chain (.logicalAnd h hf) hf _

theorem leaf (span : Span) (build : Mark → Expr) : Paired seen (leaf span build) (leaf span build) :=
  .bind .next fun _ => .bind (.mint _) fun _ => .pure _

theorem primary (h : Paired none expression expression') :
    Paired seen (primary expression) (primary expression') := by
  refine .look fun t => ?_
  split
  any_goals exact .leaf _ _
  · exact .bind (.within (.bind .next fun _ => .bind (.expect _) fun _ => .expectName)) fun _ =>
      .bind (.mint _) fun _ => .pure _
  · exact .bind (.within (.bind .next fun _ => .bind h fun _ => .bind (.expect _) fun _ => .pure _))
      fun _ => .bind (.mint _) fun _ => .pure _
  · exact .refuse _

theorem arguments (h : Paired none expression expression') (hfinds : Finds expression)
    (hf : f ≤ f') : Paired seen (arguments expression f) (arguments expression' f') :=
  .commaListBefore _ h hfinds hf

theorem suffixes (h : Paired none expression expression') (hfinds : Finds expression) :
    ∀ {f f' : Nat}, f ≤ f' → ∀ e : Expr,
      Paired none (suffixes expression f e) (suffixes expression' f' e)
  | 0, _, _, _ => .exhausted
  | f + 1, f' + 1, hf, e => by
    have hle := Nat.le_of_succ_le_succ hf
    refine .look fun t => ?_
    split
    · exact .bind (.within (.bind .next fun _ => .arguments h hfinds hle)) fun _ =>
        .bind (.mint _) fun _ => suffixes h hfinds hle _
    · exact .bind (.within (.bind .next fun _ => .expectName)) fun _ =>
        .bind (.mint _) fun _ => suffixes h hfinds hle _
    · exact .pure _

theorem call (h : Paired none expression expression') (hfinds : Finds expression) (hf : f ≤ f') :
    Paired seen (call expression f) (call expression' f') :=
  .bind (.primary h) fun _ => .suffixes h hfinds hf _

/-- A value that cannot be assigned is read before it is refused. -/
theorem assigned {value value' : Parser Expr} (h : Paired none value value') (hfinds : Finds value)
    (target : Expr) (sign : Span) :
    Paired none
      (do let e ← value
          let build ← assignTo target sign e
          Pure.pure (build, target.span.join e.span))
      (do let e ← value'
          let build ← assignTo target sign e
          Pure.pure (build, target.span.join e.span)) := by
  cases target with
  | «variable» | get => exact .bind h fun _ => .bind (.pure _) fun _ => .pure _
  | _ => exact .tooLate h hfinds

end Paired

/-- No expression is empty. -/
theorem Finds.derived {p : Parser Expr} {r : Grammar.Rank} (h : Reads p Expr.ids (Derived r)) :
    Finds p := by
  intro c e c' hc
  obtain ⟨w, hm, hw⟩ := h hc
  exact hm.unspent (Grammar.Expression.ne_nil hw) (Grammar.Expression.inner hw)

mutual

theorem expression_paired : ∀ {f f' : Nat}, f ≤ f' → Paired none (expression f) (expression f')
  | 0, _, _ => .exhausted
  | f + 1, f' + 1, hf => by
    have h : Paired none (within .expr (assignment f)) (within .expr (assignment f')) :=
      .within (assignment_paired (Nat.le_of_succ_le_succ hf))
    simpa only [expression, staged_eq] using h

theorem assignment_paired : ∀ {f f' : Nat}, f ≤ f' → Paired none (assignment f) (assignment f')
  | 0, _, _ => .exhausted
  | f + 1, f' + 1, hf => by
    have hle := Nat.le_of_succ_le_succ hf
    simp only [assignment, staged_eq]
    refine .bind (.logicalOr (unary_paired hle) hle) fun target => .bind (.takeIf _) fun o => ?_
    cases o with
    | none => exact .pure _
    | some sign =>
      exact .bind (.within (.assigned (assignment_paired hle) (.derived (assignment_reads f))
        target sign)) fun _ => .bind (.mint _) fun _ => .pure _

theorem unary_paired : ∀ {f f' : Nat}, f ≤ f' → Paired none (unary f) (unary f')
  | 0, _, _ => .exhausted
  | f + 1, f' + 1, hf => by
    have hle := Nat.le_of_succ_le_succ hf
    simp only [unary, staged_eq]
    refine .look fun t => ?_
    split
    · exact .bind .next fun _ => .bind (unary_paired hle) fun _ => .bind (.mint _) fun _ => .pure _
    · exact .call (expression_paired hle) (.derived (expression_reads f)) hle

end

/-! ### Statements -/

namespace Paired

variable {expression expression' : Parser Expr} {declaration declaration' : Parser Stmt}
  {statement statement' : Parser Stmt}

theorem block (h : Paired none declaration declaration') (hf : f ≤ f') :
    Paired seen (block declaration f) (block declaration' f') :=
  .within (.bind (.expect _) fun _ => .bind (.upToBrace h hf _) fun _ =>
    .bind (.expect _) fun _ => .pure _)

theorem function (h : Paired none declaration declaration') (hf : f ≤ f') :
    Paired seen (function declaration f) (function declaration' f') :=
  .within (.bind .expectName fun _ => .bind (.expect _) fun _ =>
    .bind (.commaListBefore _ .expectName .expectName hf) fun _ => .bind (.block h hf) fun _ => .pure _)

theorem superclass : Paired seen superclass superclass :=
  .bind .expectName fun _ => .bind (.mint _) fun _ => .pure _

theorem classDecl (h : Paired none declaration declaration') (hf : f ≤ f') :
    Paired seen (classDecl declaration f) (classDecl declaration' f') :=
  .within (.bind (.expect _) fun _ => .bind .expectName fun _ => .bind (.behind _ .superclass) fun _ =>
    .bind (.expect _) fun _ => .bind (.upToBrace (.function h hf) hf _) fun _ =>
      .bind (.expect _) fun _ => .pure _)

theorem funDecl (h : Paired none declaration declaration') (hf : f ≤ f') :
    Paired seen (funDecl declaration f) (funDecl declaration' f') :=
  .bind .next fun _ => .bind (.function h hf) fun _ => .bind .last fun _ => .pure _

theorem blockStmt (h : Paired none declaration declaration') (hf : f ≤ f') :
    Paired seen (blockStmt declaration f) (blockStmt declaration' f') :=
  .look fun _ => .bind (.block h hf) fun _ => .bind .last fun _ => .pure _

theorem varDecl (h : Paired none expression expression') :
    Paired seen (varDecl expression) (varDecl expression') :=
  .within (.bind (.expect _) fun _ => .bind .expectName fun _ => .bind (.behind _ h) fun _ =>
    .bind (.expect _) fun _ => .pure _)

theorem exprStmt (h : Paired none expression expression') :
    Paired seen (exprStmt expression) (exprStmt expression') :=
  .within (.bind h fun _ => .bind (.expect _) fun _ => .pure _)

theorem printStmt (h : Paired none expression expression') :
    Paired seen (printStmt expression) (printStmt expression') :=
  .within (.bind (.expect _) fun _ => .bind h fun _ => .bind (.expect _) fun _ => .pure _)

theorem returnStmt (h : Paired none expression expression') :
    Paired seen (returnStmt expression) (returnStmt expression') :=
  .within (.bind (.expect _) fun _ => .bind (.unlessNext _ h) fun _ =>
    .bind (.expect _) fun _ => .pure _)

theorem ifStmt (he : Paired none expression expression') (hs : Paired none statement statement') :
    Paired seen (ifStmt expression statement) (ifStmt expression' statement') :=
  .within (.bind (.expect _) fun _ => .bind (.expect _) fun _ => .bind he fun _ =>
    .bind (.expect _) fun _ => .bind hs fun _ => .bind (.behind _ hs) fun _ =>
      .bind .last fun _ => .pure _)

theorem whileStmt (he : Paired none expression expression') (hs : Paired none statement statement') :
    Paired seen (whileStmt expression statement) (whileStmt expression' statement') :=
  .within (.bind (.expect _) fun _ => .bind (.expect _) fun _ => .bind he fun _ =>
    .bind (.expect _) fun _ => .bind hs fun _ => .bind .last fun _ => .pure _)

theorem forInit (h : Paired none expression expression') :
    Paired seen (forInit expression) (forInit expression') := by
  refine .look fun t => ?_
  split
  · exact .bind .next fun _ => .pure _
  · exact .bind (.varDecl h) fun _ => .pure _
  · exact .bind (.exprStmt h) fun _ => .pure _

theorem forCondition (sign : Span) : ∀ e, Paired seen (forCondition sign e) (forCondition sign e)
  | some _ => .pure _
  | none => .bind (.mint _) fun _ => .pure _

theorem forStmt (he : Paired none expression expression') (hs : Paired none statement statement') :
    Paired seen (forStmt expression statement) (forStmt expression' statement') :=
  .within (.bind (.expect _) fun _ => .bind (.expect _) fun _ => .bind (.forInit he) fun _ =>
    .bind (.unlessNext _ he) fun _ => .bind (.expect _) fun _ => .bind (.unlessNext _ he) fun _ =>
      .bind (.expect _) fun _ => .bind hs fun _ => .bind .last fun _ =>
        .bind (.forCondition _ _) fun _ => .pure _)

end Paired

mutual

theorem declaration_paired : ∀ {f f' : Nat}, f ≤ f' → Paired none (declaration f) (declaration f')
  | 0, _, _ => .exhausted
  | f + 1, f' + 1, hf => by
    have hle := Nat.le_of_succ_le_succ hf
    simp only [declaration, staged_eq]
    refine .look fun t => ?_
    split
    · exact .classDecl (declaration_paired hle) hle
    · exact .funDecl (declaration_paired hle) hle
    · exact .varDecl (expression_paired hle)
    · exact .unseen (statement_paired hle)

theorem statement_paired : ∀ {f f' : Nat}, f ≤ f' → Paired none (statement f) (statement f')
  | 0, _, _ => .exhausted
  | f + 1, f' + 1, hf => by
    have hle := Nat.le_of_succ_le_succ hf
    simp only [statement, staged_eq]
    refine .look fun t => ?_
    split
    · exact .forStmt (expression_paired hle) (statement_paired hle)
    · exact .ifStmt (expression_paired hle) (statement_paired hle)
    · exact .printStmt (expression_paired hle)
    · exact .returnStmt (expression_paired hle)
    · exact .whileStmt (expression_paired hle) (statement_paired hle)
    · exact .blockStmt (declaration_paired hle) hle
    · exact .exprStmt (expression_paired hle)

end

end ClassScript.Parser
