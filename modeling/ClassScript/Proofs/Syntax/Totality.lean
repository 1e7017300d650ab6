/-
# The fuel of a parse suffices

A parser that is given too little fuel does not answer. Each level of nesting reads a
lexeme at least, and so does each round of a loop; a statement, an expression, an
assignment and a unary expression may nest in each other before a lexeme is read. So
three levels for each lexeme are enough, and a few more for the last one: `parseFuel`
is more than that.

Key definitions: `Answers`, `Eats`. Key theorems: `expression_answers`,
`declaration_answers`.
-/
import ClassScript.Proofs.Syntax.Soundness

namespace ClassScript
namespace Grammar

/-- No expression is empty. -/
theorem Expression.ne_nil {r : Rank} {w : List Token} {e : Expr} (h : Expression r w e) :
    w ≠ [] := by
  induction h with
  | ofOr _ ih | ofAnd _ ih | ofOperand _ ih | lift _ ih | ofUnary _ ih | ofCall _ ih
  | ofPrimary _ ih => exact ih
  | assign | set | or | and | binary | unary | call | get | constant | name | this | super
  | group => simp

/-- No statement is empty. -/
theorem Sentence.ne_nil {k : Category} {w : List Token} {p : Phrase} (h : Sentence k w p) :
    w ≠ [] := by
  induction h with
  | ofVarDecl _ ih | ofStatement _ ih | ofExprStmt _ ih | initVar _ ih | initExpr _ ih => exact ih
  | classDecl | funDecl | function | var | expression | print | «return» | block | branch
  | branchElse | loop | forBare | forInit => simp

end Grammar

namespace Parser

open Grammar

variable {α β : Type} {p : Parser α} {f : α → Parser β} {c c' : Cursor} {m n : Nat}

/-! ### Steps that answer -/

/-- The parser answers wherever at most `n` lexemes are left. -/
def Answers (n : Nat) (p : Parser α) : Prop := ∀ c : Cursor, c.rest.length ≤ n → p c ≠ .exhausted

/-- The parser reads a lexeme at least if it succeeds. -/
def Eats (p : Parser α) : Prop := ∀ ⦃c a c'⦄, p c = .ok a c' → c'.rest.length < c.rest.length

theorem bind_ne_exhausted (hp : p c ≠ .exhausted)
    (hf : ∀ a c₁, p c = .ok a c₁ → f a c₁ ≠ .exhausted) : (p >>= f) c ≠ .exhausted := by
  show Parser.bind p f c ≠ _
  unfold Parser.bind
  cases hc : p c with
  | ok a c₁ => exact hf a c₁ hc
  | refused => simp
  | exhausted => exact absurd hc hp

theorem within_ne_exhausted {k : Construct}
    (h : p { c with constructs := k :: c.constructs } ≠ .exhausted) :
    within k p c ≠ .exhausted := by
  refine bind_ne_exhausted (by simp [enter]) fun u c₁ hc => ?_
  simp only [enter, Reply.ok.injEq, true_and] at hc
  subst hc
  exact bind_ne_exhausted h fun a c₁ _ => by simp [bind, Parser.bind, leave, pure, Parser.pure]

theorem Built.rest_length {a : α} (h : Built p) (hp : p c = .ok a c') :
    c'.rest.length ≤ c.rest.length := by
  have := h.forward c
  rw [hp] at this
  exact this.rest.length_le

/-- A token in front that is not the end of the input is read by `next`. -/
theorem next_rest_length {t t' : PlacedToken} (hf : Front c t) (ht : t.token ≠ .endOfInput)
    (h : next c = .ok t' c') : c'.rest.length < c.rest.length := by
  have := (next_moves hf ht h).2.rest_length
  simp only [List.length_singleton] at this
  omega

/-- So is one at the beginning of a construct. -/
theorem within_next_rest_length {t : PlacedToken} {k : Construct} {a : α} (hf : Front c t)
    (ht : t.token ≠ .endOfInput) (hb : Built p)
    (h : within k (do let _ ← next; p) c = .ok a c') : c'.rest.length < c.rest.length := by
  obtain ⟨c₁, hc₁, rfl⟩ := within_eq_ok.mp h
  obtain ⟨t', c₂, hn, hp⟩ := bind_eq_ok.mp hc₁
  have hlt := next_rest_length (hf.in_construct (k :: c.constructs)) ht hn
  have hle := hb.rest_length hp
  exact Nat.lt_of_le_of_lt hle hlt

namespace Answers

theorem mono (h : Answers n p) (hm : m ≤ n) : Answers m p := fun c hc => h c (Nat.le_trans hc hm)

theorem pure (a : α) : Answers n (pure a : Parser α) := fun _ _ => by
  simp [Pure.pure, Parser.pure]

theorem refuse (problem : SyntaxProblem) (span : Span) :
    Answers n (refuse problem span : Parser α) := fun _ _ => by simp [Parser.refuse]

theorem peek : Answers n peek := fun c _ => by
  unfold Parser.peek
  split <;> simp

theorem next : Answers n next := fun c _ => by
  unfold Parser.next
  split <;> simp

theorem last : Answers n last := fun _ _ => by simp [Parser.last]

theorem mint (span : Span) : Answers n (mint span) := fun _ _ => by simp [Parser.mint]

/-- What comes behind a parser finds no more lexemes than that has found. -/
theorem bind (hb : Built p) (hp : Answers n p) (hf : ∀ a, Answers n (f a)) :
    Answers n (p >>= f) := fun c hc =>
  bind_ne_exhausted (hp c hc) fun a c₁ hc₁ => hf a c₁ (Nat.le_trans (hb.rest_length hc₁) hc)

/-- What comes behind a parser that reads a lexeme finds fewer lexemes than that has found. -/
theorem bind_eating (he : Eats p) (hp : Answers n p) (hf : ∀ m < n, ∀ a, Answers m (f a)) :
    Answers n (p >>= f) := fun c hc =>
  bind_ne_exhausted (hp c hc) fun a c₁ hc₁ =>
    hf c₁.rest.length (Nat.lt_of_lt_of_le (he hc₁) hc) a c₁ (Nat.le_refl _)

theorem within {k : Construct} (h : Answers n p) : Answers n (within k p) := fun _ hc =>
  within_ne_exhausted (h _ hc)

theorem ite {b : Prop} [Decidable b] {q : Parser α} (hp : Answers n p) (hq : Answers n q) :
    Answers n (if b then p else q) := by
  split
  · exact hp
  · exact hq

theorem sees (s : Symbol) : Answers n (sees s) := .bind .peek .peek fun _ => .pure _

theorem takeIf (s : Symbol) : Answers n (takeIf s) :=
  .bind .peek .peek fun _ => .ite (.bind .next .next fun _ => .pure _) (.pure _)

theorem expect (s : Symbol) : Answers n (expect s) :=
  .bind .peek .peek fun _ => .ite (.bind .next .next fun _ => .pure _) (.refuse _ _)

theorem expectName : Answers n expectName := by
  refine .bind .peek .peek fun t => ?_
  split
  · exact .bind .next .next fun _ => .pure _
  · exact .refuse _ _

end Answers

theorem Eats.expect (s : Symbol) : Eats (expect s) := fun c a c' h => by
  have := (expect_moves h).rest_length
  simp only [List.length_singleton] at this
  omega

theorem Eats.expectName : Eats expectName := fun c a c' h => by
  have := (expectName_moves h).rest_length
  simp only [List.length_singleton] at this
  omega

/-- A parser that reads tokens which are never none reads a lexeme. -/
theorem Reads.eats {ids : α → List Nat} {P : List Token → α → Prop} (h : Reads p ids P)
    (hP : ∀ w a, P w a → w ≠ []) : Eats p := fun c a c' hc => by
  obtain ⟨w, hm, hw⟩ := h hc
  have := List.length_pos_iff.mpr (hP w a hw)
  have := hm.rest_length
  omega

namespace Answers

/-- What comes behind a symbol that is read if it is next. -/
theorem takeIf_bind {s : Symbol} {g : Option Span → Parser β} (hnone : Answers n (g none))
    (hsome : ∀ m < n, ∀ span, Answers m (g (some span))) : Answers n (Parser.takeIf s >>= g) := by
  intro c hc
  refine bind_ne_exhausted (takeIf s (n := n) c hc) fun o c₁ ho => ?_
  cases o with
  | none =>
    obtain ⟨rfl, -⟩ := takeIf_none ho
    exact hnone c₁ hc
  | some span =>
    have := (takeIf_some_moves ho).rest_length
    simp only [List.length_singleton] at this
    exact hsome c₁.rest.length (by omega) span c₁ (Nat.le_refl _)

theorem behind {s : Symbol} (h : ∀ m < n, Answers m p) (hb : Built p) :
    Answers n (behind s p) :=
  takeIf_bind (.pure _) fun m hm _ => .bind hb (h m hm) fun _ => .pure _

theorem unlessNext {s : Symbol} (h : Answers n p) (hb : Built p) : Answers n (unlessNext s p) :=
  .bind (.sees s) (.sees s) fun _ => .ite (.pure _) (.bind hb h fun _ => .pure _)

theorem commaList {place : α → Span} {tooMany : SyntaxProblem} (hb : Built p) :
    ∀ (f n : Nat) (found : List α), n < f → Answers n p →
      Answers n (commaList p place tooMany f found)
  | 0, n, _, hn, _ => absurd hn (Nat.not_lt_zero n)
  | f + 1, n, found, hn, h => by
    refine .bind hb h fun a => .ite (.refuse _ _) (takeIf_bind (.pure _) fun m hm _ => ?_)
    exact commaList hb f m _ (by omega) (h.mono (Nat.le_of_lt hm))

theorem commaListBefore {s : Symbol} {place : α → Span} {tooMany : SyntaxProblem} {f : Nat}
    (hn : n < f) (hb : Built p) (h : Answers n p) :
    Answers n (commaListBefore s p place tooMany f) :=
  .bind (.unlessNext s (.commaList hb f _)) (.unlessNext (.commaList hb f n [] hn h)
    (.commaList hb f _)) fun _ => .bind (.expect s) (.expect s) fun _ => .pure _

/-! ### Expressions -/

theorem chain {Op : Type} {operand : Parser Expr} {find : Token → Option Op}
    {build : Mark → Op → Expr → Expr → Expr} (hb : Built operand)
    (hend : find .endOfInput = none) : ∀ (f n : Nat) (left : Expr), n < f → Answers n operand →
      Answers n (chain operand find build f left)
  | 0, n, _, hn, _ => absurd hn (Nat.not_lt_zero n)
  | f + 1, n, left, hn, h => by
    intro c hc
    refine bind_ne_exhausted (peek (n := n) c hc) fun t c₁ ht => ?_
    obtain ⟨rfl, hf⟩ := peek_eq_ok ht
    cases hop : find t.token with
    | none => exact pure left c₁ hc
    | some op =>
      have hne : t.token ≠ .endOfInput := fun ht => by rw [ht, hend] at hop; cases hop
      refine bind_ne_exhausted (next (n := n) c₁ hc) fun t' c₂ hc₂ => ?_
      have hlt := next_rest_length hf hne hc₂
      have hrest : Answers c₂.rest.length (do
          let right ← operand
          let mark ← Parser.mint (left.span.join right.span)
          Parser.chain operand find build f (build mark op left right)) :=
        .bind hb (h.mono (by omega)) fun _ => .bind (.mint _) (.mint _) fun _ =>
          chain hb hend f _ _ (by omega) (h.mono (by omega))
      exact hrest c₂ (Nat.le_refl _)

theorem operand {unary : Parser Expr} {f : Nat} (hb : Built unary) (hn : n < f)
    (h : Answers n unary) (level : Nat) : Answers n (operand unary f level) := by
  induction level with
  | zero => exact h
  | succ level ih =>
    exact .bind (.operand hb f level) ih fun _ => .chain (.operand hb f level) rfl f n _ hn ih

theorem logicalAnd {unary : Parser Expr} {f : Nat} (hb : Built unary) (hn : n < f)
    (h : Answers n unary) : Answers n (logicalAnd unary f) :=
  .bind (.operand hb f _) (.operand hb hn h _) fun _ =>
    .chain (.operand hb f _) rfl f n _ hn (.operand hb hn h _)

theorem logicalOr {unary : Parser Expr} {f : Nat} (hb : Built unary) (hn : n < f)
    (h : Answers n unary) : Answers n (logicalOr unary f) :=
  .bind (.logicalAnd hb f) (.logicalAnd hb hn h) fun _ =>
    .chain (.logicalAnd hb f) rfl f n _ hn (.logicalAnd hb hn h)

theorem leaf (span : Span) (build : Mark → Expr) : Answers n (leaf span build) :=
  .bind .next .next fun _ => .bind (.mint _) (.mint _) fun _ => .pure _

theorem primary {expression : Parser Expr} (hb : Built expression)
    (h : ∀ m < n, Answers m expression) : Answers n (primary expression) := by
  intro c hc
  refine bind_ne_exhausted (peek (n := n) c hc) fun t c₁ ht => ?_
  obtain ⟨rfl, hf⟩ := peek_eq_ok ht
  show answer _ c₁ ≠ _
  split
  case h_8 =>
    exact Answers.bind (.within (.bind .next fun _ => .bind (.expect _) fun _ => .expectName))
      (.within (.bind .next .next fun _ => .bind (.expect _) (.expect _) fun _ => .expectName))
      (fun _ => .bind (.mint _) (.mint _) fun _ => .pure _) c₁ hc
  case h_9 ht =>
    refine bind_ne_exhausted (within_ne_exhausted ?_) fun p c₂ _ =>
      Answers.bind (.mint _) (.mint _) (fun _ => .pure _) c₂ (Nat.le_refl _)
    refine bind_ne_exhausted (next (n := n) _ hc) fun t' c₂ hc₂ => ?_
    have hlt := next_rest_length (hf.in_construct _) (by simp [ht]) hc₂
    exact Answers.bind hb (h c₂.rest.length (Nat.lt_of_lt_of_le hlt hc))
      (fun _ => .bind (.expect _) (.expect _) fun _ => .pure _) c₂ (Nat.le_refl _)
  case h_10 => exact refuse _ _ c₁ hc
  all_goals exact leaf _ _ c₁ hc

theorem suffixes {expression : Parser Expr} (hb : Built expression) : ∀ (f n : Nat) (e : Expr),
    n < f → (∀ m < n, Answers m expression) → Answers n (suffixes expression f e)
  | 0, n, _, hn, _ => absurd hn (Nat.not_lt_zero n)
  | f + 1, n, e, hn, h => by
    intro c hc
    refine bind_ne_exhausted (peek (n := n) c hc) fun t c₁ ht => ?_
    obtain ⟨rfl, hf⟩ := peek_eq_ok ht
    show answer _ c₁ ≠ _
    split
    next ht =>
      refine bind_ne_exhausted (within_ne_exhausted ?_) fun p c₂ hc₂ => ?_
      · refine bind_ne_exhausted (next (n := n) _ hc) fun t' c₂ hc₂ => ?_
        have hlt : c₂.rest.length < n :=
          Nat.lt_of_lt_of_le (next_rest_length (hf.in_construct _) (by simp [ht]) hc₂) hc
        exact commaListBefore (by omega) hb (h _ hlt) c₂ (Nat.le_refl _)
      · have hlt := within_next_rest_length hf (by simp [ht]) (.arguments hb f) hc₂
        exact Answers.bind (.mint _) (.mint _)
          (fun _ => suffixes hb f c₂.rest.length _ (by omega) fun m hm => h m (by omega)) c₂
          (Nat.le_refl _)
    next ht =>
      refine bind_ne_exhausted (within_ne_exhausted ?_) fun p c₂ hc₂ => ?_
      · exact Answers.bind .next .next (fun _ => .expectName) _ hc
      · have hlt := within_next_rest_length hf (by simp [ht]) .expectName hc₂
        exact Answers.bind (.mint _) (.mint _)
          (fun _ => suffixes hb f c₂.rest.length _ (by omega) fun m hm => h m (by omega)) c₂
          (Nat.le_refl _)
    next => exact pure e c₁ hc

theorem call {expression : Parser Expr} {f : Nat} (hb : Built expression) (hn : n < f)
    (h : ∀ m < n, Answers m expression) : Answers n (call expression f) :=
  .bind (.primary hb) (.primary hb h) fun _ => .suffixes hb f n _ hn h

theorem assignTo (target : Expr) (sign : Span) (value : Expr) :
    Answers n (assignTo target sign value) := by
  unfold Parser.assignTo
  split
  · exact .pure _
  · exact .pure _
  · exact .refuse _ _

end Answers

mutual

/-- **An expression is read or refused** if there is fuel enough for the lexemes left. -/
theorem expression_answers : ∀ f n, 3 * n + 4 ≤ f → Answers n (expression f)
  | 0, n, h => absurd h (by omega)
  | f + 1, n, h => by
    have ha := (assignment_answers f n (by omega)).within (k := .expr)
    intro c hc
    simp only [expression, staged_eq]
    exact ha c hc

theorem assignment_answers : ∀ f n, 3 * n + 3 ≤ f → Answers n (assignment f)
  | 0, n, h => absurd h (by omega)
  | f + 1, n, h => by
    have hu := unary_answers f n (by omega)
    intro c hc
    simp only [assignment, staged_eq]
    refine Answers.bind (.logicalOr (built_unary f) f)
      (.logicalOr (built_unary f) (by omega) hu) (fun target => ?_) c hc
    refine .takeIf_bind (.pure _) fun m hm sign => ?_
    have hrest : Answers m (do
        let value ← assignment f
        let build ← assignTo target sign value
        pure (build, target.span.join value.span)) :=
      .bind (built_assignment f) (assignment_answers f m (by omega)) fun _ =>
        .bind (.assignTo _ _ _) (.assignTo _ _ _) fun _ => .pure _
    exact .bind (.within (.bind (built_assignment f) fun _ => .bind (.assignTo _ _ _) fun _ =>
      .pure _)) hrest.within fun _ => .bind (.mint _) (.mint _) fun _ => .pure _

theorem unary_answers : ∀ f n, 3 * n + 2 ≤ f → Answers n (unary f)
  | 0, n, h => absurd h (by omega)
  | f + 1, n, h => by
    intro c hc
    simp only [unary, staged_eq]
    refine bind_ne_exhausted (Answers.peek c hc) fun t c₁ ht => ?_
    obtain ⟨rfl, hf⟩ := peek_eq_ok ht
    cases hop : UnaryOp.ofToken? t.token with
    | none =>
      exact Answers.call (built_expression f) (by omega)
        (fun m hm => expression_answers f m (by omega)) c₁ hc
    | some op =>
      have hne : t.token ≠ .endOfInput := fun ht => by rw [ht] at hop; cases hop
      refine bind_ne_exhausted (Answers.next c₁ hc) fun t' c₂ hc₂ => ?_
      have hlt := next_rest_length hf hne hc₂
      exact Answers.bind (built_unary f) (unary_answers f c₂.rest.length (by omega))
        (fun _ => .bind (.mint _) (.mint _) fun _ => .pure _) c₂ (Nat.le_refl _)

end

/-! ### Statements -/

theorem Eats.declaration (f : Nat) : Eats (declaration f) :=
  (declaration_reads f).reads.eats fun _ _ ⟨_, h, _⟩ => h.ne_nil

theorem Eats.function {declaration : Parser Stmt}
    (h : Reads declaration Stmt.ids (Written .declaration)) (f : Nat) :
    Eats (function declaration f) :=
  (function_reads h f).eats fun _ _ ⟨_, h, _⟩ => h.ne_nil

namespace Answers

section Parts

variable {expression : Parser Expr} {declaration statement : Parser Stmt} {f : Nat}

theorem upToBrace (he : Eats p) : ∀ (f n : Nat) (found : List α), n < f → Answers n p →
    Answers n (upToBrace p f found)
  | 0, n, _, hn, _ => absurd hn (Nat.not_lt_zero n)
  | f + 1, n, found, hn, h =>
    .bind .peek .peek fun _ => .ite (.pure _) (.bind_eating he h fun m hm _ =>
      upToBrace he f m _ (by omega) (h.mono (Nat.le_of_lt hm)))

theorem block (he : Eats declaration) (hb : Built declaration) (hn : n ≤ f)
    (h : ∀ m < n, Answers m declaration) : Answers n (block declaration f) :=
  .within (.bind_eating (.expect _) (.expect _) fun m hm _ =>
    .bind (.upToBrace hb f _) (.upToBrace he f m [] (by omega) (h m hm)) fun _ =>
      .bind (.expect _) (.expect _) fun _ => .pure _)

theorem function (he : Eats declaration) (hb : Built declaration) (hn : n ≤ f)
    (h : ∀ m < n, Answers m declaration) : Answers n (function declaration f) :=
  .within (.bind_eating .expectName .expectName fun m hm _ =>
    .bind (.expect _) (.expect _) fun _ =>
      .bind (.commaListBefore _ .expectName f) (.commaListBefore (by omega) .expectName .expectName)
        fun _ => .bind (.block hb f)
          (.block he hb (by omega) fun k hk => h k (Nat.lt_trans hk hm)) fun _ => .pure _)

theorem superclass : Answers n superclass :=
  .bind .expectName .expectName fun _ => .bind (.mint _) (.mint _) fun _ => .pure _

theorem classDecl (h : Reads declaration Stmt.ids (Written .declaration)) (hb : Built declaration)
    (hn : n ≤ f) (hd : ∀ m < n, Answers m declaration) : Answers n (classDecl declaration f) := by
  have he : Eats declaration := h.eats fun _ _ ⟨_, h, _⟩ => h.ne_nil
  refine .within (.bind_eating (.expect _) (.expect _) fun m hm _ => ?_)
  have hm' : ∀ k < m, Answers k declaration := fun k hk => hd k (Nat.lt_trans hk hm)
  exact .bind .expectName .expectName fun _ =>
    .bind (.behind _ .superclass) (.behind (fun _ _ => .superclass) .superclass) fun _ =>
      .bind (.expect _) (.expect _) fun _ => .bind (.upToBrace (.function hb f) f _)
        (.upToBrace (.function h f) f m [] (by omega) (.function he hb (by omega) hm')) fun _ =>
          .bind (.expect _) (.expect _) fun _ => .pure _

theorem varDecl (hb : Built expression) (h : ∀ m < n, Answers m expression) :
    Answers n (varDecl expression) :=
  .within (.bind (.expect _) (.expect _) fun _ => .bind .expectName .expectName fun _ =>
    .bind (.behind _ hb) (.behind h hb) fun _ => .bind (.expect _) (.expect _) fun _ => .pure _)

theorem exprStmt (hb : Built expression) (h : Answers n expression) :
    Answers n (exprStmt expression) :=
  .within (.bind hb h fun _ => .bind (.expect _) (.expect _) fun _ => .pure _)

theorem printStmt (hb : Built expression) (h : Answers n expression) :
    Answers n (printStmt expression) :=
  .within (.bind (.expect _) (.expect _) fun _ => .bind hb h fun _ =>
    .bind (.expect _) (.expect _) fun _ => .pure _)

theorem returnStmt (hb : Built expression) (h : Answers n expression) :
    Answers n (returnStmt expression) :=
  .within (.bind (.expect _) (.expect _) fun _ =>
    .bind (.unlessNext _ hb) (.unlessNext h hb) fun _ =>
      .bind (.expect _) (.expect _) fun _ => .pure _)

theorem ifStmt (hbe : Built expression) (he : Answers n expression) (hbs : Built statement)
    (hs : ∀ m < n, Answers m statement) : Answers n (ifStmt expression statement) :=
  .within (.bind_eating (.expect _) (.expect _) fun m hm _ =>
    .bind (.expect _) (.expect _) fun _ => .bind hbe (he.mono (Nat.le_of_lt hm)) fun _ =>
      .bind (.expect _) (.expect _) fun _ => .bind hbs (hs m hm) fun _ =>
        .bind (.behind _ hbs) (.behind (fun k hk => hs k (Nat.lt_trans hk hm)) hbs) fun _ =>
          .bind .last .last fun _ => .pure _)

theorem whileStmt (hbe : Built expression) (he : Answers n expression) (hbs : Built statement)
    (hs : ∀ m < n, Answers m statement) : Answers n (whileStmt expression statement) :=
  .within (.bind_eating (.expect _) (.expect _) fun m hm _ =>
    .bind (.expect _) (.expect _) fun _ => .bind hbe (he.mono (Nat.le_of_lt hm)) fun _ =>
      .bind (.expect _) (.expect _) fun _ => .bind hbs (hs m hm) fun _ =>
        .bind .last .last fun _ => .pure _)

theorem forInit (hb : Built expression) (h : Answers n expression) :
    Answers n (forInit expression) := by
  refine .bind .peek .peek fun t => ?_
  split
  · exact .bind .next .next fun _ => .pure _
  · exact .bind (.varDecl hb) (.varDecl hb fun m hm => h.mono (Nat.le_of_lt hm)) fun _ => .pure _
  · exact .bind (.exprStmt hb) (.exprStmt hb h) fun _ => .pure _

theorem forCondition (sign : Span) : ∀ e, Answers n (forCondition sign e)
  | some _ => .pure _
  | none => .bind (.mint _) (.mint _) fun _ => .pure _

theorem forStmt (hbe : Built expression) (he : Answers n expression) (hbs : Built statement)
    (hs : ∀ m < n, Answers m statement) : Answers n (forStmt expression statement) := by
  refine .within (.bind_eating (.expect _) (.expect _) fun m hm _ => ?_)
  have he' := he.mono (Nat.le_of_lt hm)
  exact .bind (.expect _) (.expect _) fun _ => .bind (.forInit hbe) (.forInit hbe he') fun _ =>
    .bind (.unlessNext _ hbe) (.unlessNext he' hbe) fun _ => .bind (.expect _) (.expect _) fun _ =>
      .bind (.unlessNext _ hbe) (.unlessNext he' hbe) fun _ =>
        .bind (.expect _) (.expect _) fun _ => .bind hbs (hs m hm) fun _ =>
          .bind .last .last fun _ => .bind (.forCondition _ _) (.forCondition _ _) fun _ => .pure _

theorem blockStmt (he : Eats declaration) (hb : Built declaration) (hn : n ≤ f)
    (h : ∀ m < n, Answers m declaration) : Answers n (blockStmt declaration f) :=
  .bind .peek .peek fun _ => .bind (.block hb f) (.block he hb hn h) fun _ =>
    .bind .last .last fun _ => .pure _

end Parts

end Answers

mutual

/-- **A declaration is read or refused** if there is fuel enough for the lexemes left. -/
theorem declaration_answers : ∀ f n, 3 * n + 6 ≤ f → Answers n (declaration f)
  | 0, n, h => absurd h (by omega)
  | f + 1, n, h => by
    have hd : ∀ m < n, Answers m (declaration f) := fun m hm =>
      declaration_answers f m (by omega)
    intro c hc
    simp only [declaration, staged_eq]
    refine bind_ne_exhausted (Answers.peek c hc) fun t c₁ ht => ?_
    obtain ⟨rfl, hf⟩ := peek_eq_ok ht
    show answer _ c₁ ≠ _
    split
    next =>
      exact Answers.classDecl (declaration_reads f).reads (built_declaration f) (by omega) hd c₁ hc
    next ht =>
      refine bind_ne_exhausted (Answers.next c₁ hc) fun t' c₂ hc₂ => ?_
      have hlt := next_rest_length hf (by simp [ht]) hc₂
      exact Answers.bind (.function (built_declaration f) f)
        (.function (.declaration f) (built_declaration f) (by omega) fun m hm => hd m (by omega))
        (fun _ => .bind .last .last fun _ => .pure _) c₂ (Nat.le_refl _)
    next =>
      exact Answers.varDecl (built_expression f) (fun m hm => expression_answers f m (by omega))
        c₁ hc
    next => exact statement_answers f n (by omega) c₁ hc

theorem statement_answers : ∀ f n, 3 * n + 5 ≤ f → Answers n (statement f)
  | 0, n, h => absurd h (by omega)
  | f + 1, n, h => by
    have he := expression_answers f n (by omega)
    have hs : ∀ m < n, Answers m (statement f) := fun m hm => statement_answers f m (by omega)
    have hd : ∀ m < n, Answers m (declaration f) := fun m hm =>
      declaration_answers f m (by omega)
    intro c hc
    simp only [statement, staged_eq]
    refine Answers.bind .peek .peek (fun t => ?_) c hc
    split
    · exact .forStmt (built_expression f) he (built_statement f) hs
    · exact .ifStmt (built_expression f) he (built_statement f) hs
    · exact .printStmt (built_expression f) he
    · exact .returnStmt (built_expression f) he
    · exact .whileStmt (built_expression f) he (built_statement f) hs
    · exact .blockStmt (.declaration f) (built_declaration f) (by omega) hd
    · exact .exprStmt (built_expression f) he

end

end Parser
end ClassScript
