/-
# Parsing with later identities

A parse that starts with a later identity goes the same way (`Parser.Later`): it reads the same
lexemes and refuses the same ones with the same errors, and the identities it gives out are later
by the same number. Only `mint` looks at the counter, so the rest goes through the parsers one by
one.

Key theorems: `CharStream.parse_later`, and `CharStream.parse_fresh`: a parse gives out a stretch of
identities, each of them once.
-/
import ClassScript.Proofs.Syntax.Renumbering

namespace ClassScript

variable {α β γ δ : Type} {k : Nat}

/-! ### Two parsers -/

/-- The same cursor, with a counter that is further by `k`. -/
def Cursor.later (k : Nat) (c : Cursor) : Cursor := { c with nextId := c.nextId + k }

/-- The same answers up to the counter, with related values. -/
inductive Reply.Later (k : Nat) (R : α → β → Prop) : Reply α → Reply β → Prop
  | ok {a : α} {b : β} {c : Cursor} : R a b → Later k R (.ok a c) (.ok b (c.later k))
  | refused {r : Refusal} {c : Cursor} : Later k R (.refused r c) (.refused r (c.later k))
  | exhausted : Later k R .exhausted .exhausted

theorem Reply.Later.mono {R S : α → β → Prop} {r : Reply α} {r' : Reply β} (h : Later k R r r')
    (hR : ∀ a b, R a b → S a b) : Later k S r r' := by
  cases h with
  | ok hab => exact .ok (hR _ _ hab)
  | refused => exact .refused
  | exhausted => exact .exhausted

/-- The second parser does with a later counter what the first one does. -/
def Parser.Later (k : Nat) (R : α → β → Prop) (p : Parser α) (p' : Parser β) : Prop :=
  ∀ c : Cursor, Reply.Later k R (p c) (p' (c.later k))

namespace Parser.Later

variable {R : α → β → Prop} {S : γ → δ → Prop} {p : Parser α} {p' : Parser β} {f : α → Parser γ}
  {f' : β → Parser δ}

theorem pure {a : α} {b : β} (h : R a b) : Later k R (pure a) (pure b) := fun _ => .ok h

theorem refuse (problem : SyntaxProblem) (span : Span) :
    Later k R (refuse problem span) (refuse problem span) := fun _ => .refused

theorem exhausted : Later k R exhausted exhausted := fun _ => .exhausted

theorem mono {S : α → β → Prop} (h : Later k R p p') (hR : ∀ a b, R a b → S a b) :
    Later k S p p' := fun c => (h c).mono hR

/-- **One parser after the other.** -/
theorem bind (hp : Later k R p p') (hf : ∀ a b, R a b → Later k S (f a) (f' b)) :
    Later k S (p >>= f) (p' >>= f') := by
  intro c
  show Reply.Later k S (Parser.bind p f c) (Parser.bind p' f' (c.later k))
  have h := hp c
  unfold Parser.bind
  revert h
  generalize p c = r, p' (c.later k) = r'
  rintro (hab | _ | _)
  · exact hf _ _ hab _
  · exact .refused
  · exact .exhausted

/-- The same parser first, with a value that knows no identities. -/
theorem bind_same {q : Parser α} {f : α → Parser γ} {f' : α → Parser δ} (hq : Later k Eq q q)
    (hf : ∀ a, Later k S (f a) (f' a)) : Later k S (q >>= f) (q >>= f') := by
  refine hq.bind ?_
  rintro a - rfl
  exact hf a

/-! ### The steps -/

theorem peek : Later k Eq peek peek := by
  intro c
  unfold Parser.peek Cursor.later
  dsimp only
  split
  · exact .ok rfl
  · exact .ok rfl
  · exact .refused

theorem next : Later k Eq next next := by
  intro c
  unfold Parser.next Cursor.later
  dsimp only
  split
  · exact .ok rfl
  · exact .ok rfl
  · exact .refused

theorem last : Later k Eq last last := fun _ => .ok rfl

/-- The one step that looks at the counter. -/
theorem mint (s : Span) : Later k (fun m m' => m' = m.mapId (· + k)) (mint s) (mint s) := by
  intro c
  have hcounter : ({ c with nextId := c.nextId + 1 } : Cursor).later k =
      { c with nextId := c.nextId + k + 1 } := by
    rw [Cursor.later, Nat.add_right_comm]
  unfold Parser.mint
  exact hcounter ▸ .ok rfl

theorem within {K : Construct} (h : Later k R p p') : Later k R (within K p) (within K p') :=
  .bind (R := Eq) (fun _ => .ok rfl) fun _ _ _ => .bind h fun _ _ hab =>
    .bind (R := Eq) (fun _ => .ok rfl) fun _ _ _ => .pure hab

theorem ite {b : Prop} [Decidable b] {q : Parser α} {q' : Parser β} (hp : Later k R p p')
    (hq : Later k R q q') : Later k R (if b then p else q) (if b then p' else q') := by
  split
  · exact hp
  · exact hq

theorem sees (s : Symbol) : Later k Eq (sees s) (sees s) := .bind_same .peek fun _ => .pure rfl

theorem takeIf (s : Symbol) : Later k Eq (takeIf s) (takeIf s) :=
  .bind_same .peek fun _ => .ite (.bind_same .next fun _ => .pure rfl) (.pure rfl)

theorem expect (s : Symbol) : Later k Eq (expect s) (expect s) :=
  .bind_same .peek fun _ => .ite (.bind_same .next fun _ => .pure rfl) (.refuse _ _)

theorem expectName : Later k Eq expectName expectName := by
  refine .bind_same .peek fun t => ?_
  cases t.token with
  | name => exact .bind_same .next fun _ => .pure rfl
  | symbol | number | text | endOfInput => exact .refuse _ _

end Parser.Later

/-! ### Parts and lists -/

namespace Parser

/-- The second parser does with a later counter what the first one does, and its value is made from
that of the first. -/
abbrev LaterBy (k : Nat) (g : α → β) : Parser α → Parser β → Prop := Later k fun a b => b = g a

namespace LaterBy

variable {g : α → β} {p : Parser α} {p' : Parser β}

theorem bind {S : γ → δ → Prop} {f : α → Parser γ} {f' : β → Parser δ} (hp : LaterBy k g p p')
    (hf : ∀ a, Later k S (f a) (f' (g a))) : Later k S (p >>= f) (p' >>= f') := by
  refine Later.bind hp ?_
  rintro a - rfl
  exact hf a

theorem behind (s : Symbol) (h : LaterBy k g p p') :
    LaterBy k (Option.map g) (behind s p) (behind s p') := by
  refine .bind_same (.takeIf s) fun o => ?_
  cases o with
  | none => exact .pure rfl
  | some => exact bind h fun _ => .pure rfl

theorem unlessNext (s : Symbol) (h : LaterBy k g p p') :
    LaterBy k (Option.map g) (unlessNext s p) (unlessNext s p') :=
  .bind_same (.sees s) fun _ => .ite (.pure rfl) (bind h fun _ => .pure rfl)

theorem commaList {place : α → Span} {place' : β → Span} {tooMany : SyntaxProblem}
    (hplace : ∀ a, place' (g a) = place a) (h : LaterBy k g p p') :
    ∀ (f : Nat) (found : List α), LaterBy k (List.map g) (commaList p place tooMany f found)
      (commaList p' place' tooMany f (found.map g))
  | 0, _ => .exhausted
  | f + 1, found => by
    refine bind h fun a => ?_
    rw [List.length_map, hplace]
    refine .ite (.refuse _ _) (.bind_same (.takeIf _) fun o => ?_)
    cases o with
    | none => exact .pure (by rw [← List.map_cons, List.map_reverse])
    | some => exact commaList hplace h f (a :: found)

theorem commaListBefore (s : Symbol) {place : α → Span} {place' : β → Span}
    {tooMany : SyntaxProblem} (hplace : ∀ a, place' (g a) = place a) (h : LaterBy k g p p')
    (f : Nat) :
    LaterBy k (Prod.map (List.map g) id) (commaListBefore s p place tooMany f)
      (commaListBefore s p' place' tooMany f) := by
  refine bind (unlessNext s (commaList hplace h f [])) fun o => .bind_same (.expect s) fun _ => ?_
  cases o with
  | none => exact .pure rfl
  | some => exact .pure rfl

theorem upToBrace (h : LaterBy k g p p') : ∀ (f : Nat) (found : List α),
    LaterBy k (List.map g) (upToBrace p f found) (upToBrace p' f (found.map g))
  | 0, _ => .exhausted
  | f + 1, found => .bind_same .peek fun _ => .ite (.pure (List.map_reverse ..).symm)
      (bind h fun a => upToBrace h f (a :: found))

end LaterBy

/-! ### Expressions -/

/-- The parsers of expressions. -/
abbrev LaterExpr (k : Nat) : Parser Expr → Parser Expr → Prop := LaterBy k (Expr.mapIds (· + k))

namespace LaterExpr

variable {expression expression' unary unary' : Parser Expr}

theorem chain {operand operand' : Parser Expr} {Op : Type} {find : Token → Option Op}
    {build : Mark → Op → Expr → Expr → Expr}
    (hbuild : ∀ m op l r, (build m op l r).mapIds (· + k) =
      build (m.mapId (· + k)) op (l.mapIds (· + k)) (r.mapIds (· + k)))
    (h : LaterExpr k operand operand') : ∀ (f : Nat) (left : Expr),
      LaterExpr k (chain operand find build f left)
        (chain operand' find build f (left.mapIds (· + k)))
  | 0, _ => .exhausted
  | f + 1, left => by
    refine .bind_same .peek fun t => ?_
    cases find t.token with
    | none => exact .pure rfl
    | some op =>
      refine .bind_same .next fun _ => h.bind fun right => ?_
      rw [Expr.span_mapIds, Expr.span_mapIds]
      refine (Later.mint _).bind fun m m' hm => ?_
      rw [hm, ← hbuild]
      exact chain hbuild h f _

theorem operand (h : LaterExpr k unary unary') (f level : Nat) :
    LaterExpr k (operand unary f level) (operand unary' f level) := by
  induction level with
  | zero => exact h
  | succ level ih => exact ih.bind (chain (by intros; rfl) ih f)

theorem logicalAnd (h : LaterExpr k unary unary') (f : Nat) :
    LaterExpr k (logicalAnd unary f) (logicalAnd unary' f) :=
  (operand h f _).bind (chain (by intros; rfl) (operand h f _) f)

theorem logicalOr (h : LaterExpr k unary unary') (f : Nat) :
    LaterExpr k (logicalOr unary f) (logicalOr unary' f) :=
  (logicalAnd h f).bind (chain (by intros; rfl) (logicalAnd h f) f)

theorem leaf {s : Span} {build : Mark → Expr}
    (hbuild : ∀ m, (build m).mapIds (· + k) = build (m.mapId (· + k))) :
    LaterExpr k (leaf s build) (leaf s build) :=
  .bind_same .next fun _ => LaterBy.bind (.mint s) fun m => .pure (hbuild m).symm

theorem primary (h : LaterExpr k expression expression') :
    LaterExpr k (primary expression) (primary expression') := by
  refine .bind_same .peek fun t => ?_
  dsimp only
  cases t.token with
  | number | text | name => exact leaf fun _ => rfl
  | endOfInput => exact .refuse _ _
  | symbol s =>
    cases s with
    | nilWord | trueWord | falseWord | thisWord => exact leaf fun _ => rfl
    | superWord =>
      refine .bind_same (.within (.bind_same .next fun _ => .bind_same (.expect _) fun _ =>
        .expectName)) fun method => LaterBy.bind (.mint _) fun m => .pure rfl
    | openParen =>
      have hinner : LaterBy k (Prod.map (Expr.mapIds (· + k)) id) (within .group do
            let _ ← Parser.next
            let inner ← expression
            let stop ← expect .closeParen
            Pure.pure (inner, stop)) (within .group do
            let _ ← Parser.next
            let inner ← expression'
            let stop ← expect .closeParen
            Pure.pure (inner, stop)) :=
        .within (.bind_same .next fun _ => h.bind fun _ => .bind_same (.expect _) fun _ =>
          .pure rfl)
      exact hinner.bind fun _ => LaterBy.bind (.mint _) fun _ => .pure rfl
    | _ => exact .refuse _ _

theorem suffixes (h : LaterExpr k expression expression') : ∀ (f : Nat) (e : Expr),
    LaterExpr k (suffixes expression f e) (suffixes expression' f (e.mapIds (· + k)))
  | 0, _ => .exhausted
  | f + 1, e => by
    refine .bind_same .peek fun t => ?_
    dsimp only
    cases t.token with
    | number | text | name | endOfInput => exact .pure rfl
    | symbol s =>
      cases s with
      | openParen =>
        refine LaterBy.bind (.within (.bind_same .next fun _ =>
          LaterBy.commaListBefore _ (Expr.span_mapIds _) h f)) fun args => ?_
        rw [Expr.span_mapIds]
        refine LaterBy.bind (.mint _) fun m => ?_
        have hcall := suffixes h f (.call m e args.1)
        rwa [Expr.mapIds, Expr.mapIdsOf_eq_map] at hcall
      | dot =>
        refine .bind_same (.within (.bind_same .next fun _ => .expectName)) fun name => ?_
        rw [Expr.span_mapIds]
        exact LaterBy.bind (.mint _) fun m => suffixes h f (.get m e name.name)
      | _ => exact .pure rfl

theorem call (h : LaterExpr k expression expression') (f : Nat) :
    LaterExpr k (call expression f) (call expression' f) :=
  (primary h).bind fun e => suffixes h f e

end LaterExpr

/-- An assignment is built from a mark, so that the marks correspond and not the builders. -/
theorem assignTo_later (target value : Expr) (sign : Span) :
    Later k (fun b b' => ∀ m, b' (m.mapId (· + k)) = (b m).mapIds (· + k))
      (assignTo target sign value)
      (assignTo (target.mapIds (· + k)) sign (value.mapIds (· + k))) := by
  cases target with
  | «variable» | get => exact .pure fun _ => rfl
  | _ => exact .refuse _ _

mutual

theorem expression_later : ∀ f, LaterExpr k (expression f) (expression f)
  | 0 => .exhausted
  | f + 1 => by
    simp only [expression, staged_eq]
    exact (assignment_later f).within

theorem assignment_later : ∀ f, LaterExpr k (assignment f) (assignment f)
  | 0 => .exhausted
  | f + 1 => by
    simp only [assignment, staged_eq]
    refine (LaterExpr.logicalOr (unary_later f) f).bind fun target =>
      .bind_same (.takeIf .equal) fun sign => ?_
    cases sign with
    | none => exact .pure rfl
    | some sign =>
      refine Later.bind (R := fun x x' => (∀ m, x'.1 (m.mapId (· + k)) = (x.1 m).mapIds (· + k)) ∧
        x'.2 = x.2) (.within ((assignment_later f).bind fun value =>
          (assignTo_later target value sign).bind fun _ _ hbuild => .pure ⟨hbuild, ?_⟩)) ?_
      · rw [Expr.span_mapIds, Expr.span_mapIds]
      · rintro ⟨build, span⟩ ⟨build', _⟩ ⟨hbuild, rfl⟩
        exact LaterBy.bind (.mint _) fun m => .pure (hbuild m)

theorem unary_later : ∀ f, LaterExpr k (unary f) (unary f)
  | 0 => .exhausted
  | f + 1 => by
    simp only [unary, staged_eq]
    refine .bind_same .peek fun t => ?_
    cases UnaryOp.ofToken? t.token with
    | none => exact LaterExpr.call (expression_later f) f
    | some op =>
      refine .bind_same .next fun _ => (unary_later f).bind fun e => ?_
      rw [Expr.span_mapIds]
      exact LaterBy.bind (.mint _) fun m => .pure rfl

end

/-! ### Statements -/

/-- The parsers of statements. -/
abbrev LaterStmt (k : Nat) : Parser Stmt → Parser Stmt → Prop := LaterBy k (Stmt.mapIds (· + k))

namespace LaterStmt

variable {expression expression' : Parser Expr}
  {declaration declaration' statement statement' : Parser Stmt}

section

variable (h : LaterStmt k declaration declaration') (f : Nat)

include h

theorem block : LaterBy k (Stmt.mapIdsOf (· + k)) (block declaration f) (block declaration' f) :=
  .within (.bind_same (.expect _) fun _ => (LaterBy.upToBrace h f []).bind fun body =>
    .bind_same (.expect _) fun _ => .pure (Stmt.mapIdsOf_eq_map _ body).symm)

theorem function : LaterBy k (FunctionDecl.mapIds (· + k)) (function declaration f)
    (function declaration' f) := by
  have hparams : Later k Eq
      (commaListBefore .closeParen expectName Declared.span .tooManyParameters f)
      (commaListBefore .closeParen expectName Declared.span .tooManyParameters f) :=
    (LaterBy.commaListBefore .closeParen (fun _ => rfl)
      (Later.expectName.mono fun _ _ h => h.symm) f).mono fun _ _ h => by simpa using h.symm
  exact .within (.bind_same .expectName fun _ => .bind_same (.expect _) fun _ =>
    .bind_same hparams fun _ => (block h f).bind fun _ => .pure rfl)

theorem classDecl : LaterStmt k (classDecl declaration f) (classDecl declaration' f) := by
  have hparent : LaterBy k (NameUse.mapId (· + k)) superclass superclass :=
    .bind_same .expectName fun _ => LaterBy.bind (.mint _) fun _ => .pure rfl
  refine .within (.bind_same (.expect _) fun start => .bind_same .expectName fun _ =>
    (LaterBy.behind _ hparent).bind fun _ => .bind_same (.expect _) fun _ =>
      (LaterBy.upToBrace (function h f) f []).bind fun methods =>
        .bind_same (.expect _) fun _ => .pure ?_)
  rw [Stmt.mapIds, FunctionDecl.mapIdsOf_eq_map]

theorem funDecl : LaterStmt k (funDecl declaration f) (funDecl declaration' f) :=
  .bind_same .next fun _ => (function h f).bind fun _ => .bind_same .last fun _ => .pure rfl

theorem blockStmt : LaterStmt k (blockStmt declaration f) (blockStmt declaration' f) :=
  .bind_same .peek fun _ => (block h f).bind fun _ => .bind_same .last fun _ => .pure rfl

end

section

variable (h : LaterExpr k expression expression')

include h

theorem varDecl : LaterStmt k (varDecl expression) (varDecl expression') :=
  .within (.bind_same (.expect _) fun _ => .bind_same .expectName fun _ =>
    (LaterBy.behind _ h).bind fun _ => .bind_same (.expect _) fun _ => .pure rfl)

theorem exprStmt : LaterStmt k (exprStmt expression) (exprStmt expression') := by
  refine .within (h.bind fun e => .bind_same (.expect _) fun _ => .pure ?_)
  rw [Expr.span_mapIds]
  rfl

theorem printStmt : LaterStmt k (printStmt expression) (printStmt expression') :=
  .within (.bind_same (.expect _) fun _ => h.bind fun _ => .bind_same (.expect _) fun _ =>
    .pure rfl)

theorem returnStmt : LaterStmt k (returnStmt expression) (returnStmt expression') :=
  .within (.bind_same (.expect _) fun _ => (LaterBy.unlessNext _ h).bind fun _ =>
    .bind_same (.expect _) fun _ => .pure rfl)

theorem forInit : LaterBy k (Option.map (Stmt.mapIds (· + k))) (forInit expression)
    (forInit expression') := by
  refine .bind_same .peek fun t => ?_
  cases t.token with
  | number | text | name | endOfInput => exact (exprStmt h).bind fun _ => .pure rfl
  | symbol sym =>
    cases sym with
    | semicolon => exact .bind_same .next fun _ => .pure rfl
    | varWord => exact (varDecl h).bind fun _ => .pure rfl
    | _ => exact (exprStmt h).bind fun _ => .pure rfl

variable (hs : LaterStmt k statement statement')

include hs

theorem ifStmt : LaterStmt k (ifStmt expression statement) (ifStmt expression' statement') := by
  refine .within (.bind_same (.expect _) fun _ => .bind_same (.expect _) fun _ => h.bind fun _ =>
    .bind_same (.expect _) fun _ => hs.bind fun _ => (LaterBy.behind _ hs).bind fun _ =>
      .bind_same .last fun _ => .pure ?_)
  rw [Stmt.mapIds, Stmt.optionalMapIds_eq_map]

theorem whileStmt :
    LaterStmt k (whileStmt expression statement) (whileStmt expression' statement') :=
  .within (.bind_same (.expect _) fun _ => .bind_same (.expect _) fun _ => h.bind fun _ =>
    .bind_same (.expect _) fun _ => hs.bind fun _ => .bind_same .last fun _ => .pure rfl)

theorem forStmt : LaterStmt k (forStmt expression statement) (forStmt expression' statement') := by
  refine .within (.bind_same (.expect _) fun _ => .bind_same (.expect _) fun _ =>
    (forInit h).bind fun init => (LaterBy.unlessNext _ h).bind fun condition =>
      .bind_same (.expect _) fun sign => (LaterBy.unlessNext _ h).bind fun increment =>
        .bind_same (.expect _) fun _ => hs.bind fun body => .bind_same .last fun stop => ?_)
  have hcondition : LaterExpr k (forCondition sign condition)
      (forCondition sign (condition.map (Expr.mapIds (· + k)))) := by
    cases condition with
    | none => exact LaterBy.bind (.mint sign) fun _ => .pure rfl
    | some => exact .pure rfl
  exact hcondition.bind fun e => .pure (Stmt.mapIds_forLoop ..).symm

end

end LaterStmt

mutual

theorem declaration_later : ∀ f, LaterStmt k (declaration f) (declaration f)
  | 0 => .exhausted
  | f + 1 => by
    simp only [declaration, staged_eq]
    refine .bind_same .peek fun t => ?_
    cases t.token with
    | number | text | name | endOfInput => exact statement_later f
    | symbol s =>
      cases s with
      | classWord => exact LaterStmt.classDecl (declaration_later f) f
      | funWord => exact LaterStmt.funDecl (declaration_later f) f
      | varWord => exact LaterStmt.varDecl (expression_later f)
      | _ => exact statement_later f

theorem statement_later : ∀ f, LaterStmt k (statement f) (statement f)
  | 0 => .exhausted
  | f + 1 => by
    have he := expression_later (k := k) f
    simp only [statement, staged_eq]
    refine .bind_same .peek fun t => ?_
    cases t.token with
    | number | text | name | endOfInput => exact LaterStmt.exprStmt he
    | symbol s =>
      cases s with
      | forWord => exact LaterStmt.forStmt he (statement_later f)
      | ifWord => exact LaterStmt.ifStmt he (statement_later f)
      | printWord => exact LaterStmt.printStmt he
      | returnWord => exact LaterStmt.returnStmt he
      | whileWord => exact LaterStmt.whileStmt he (statement_later f)
      | openBrace => exact LaterStmt.blockStmt (declaration_later f) f
      | _ => exact LaterStmt.exprStmt he

end

end Parser

/-! ### Programs -/

/-- **A parse gives each identity out once,** and all of them from the stretch between the counter
before and after it, errors or not. -/
theorem Parse.statements_fresh {f : Nat} : ∀ (n : Nat) (c : Cursor),
    Fresh c.nextId (statements f n c).nextId (Stmt.idsOf (statements f n c).trees)
  | 0, c => .nil (Nat.le_refl _)
  | n + 1, c => by
    have hforward := (Parser.built_declaration f).forward { c with constructs := [.topLevel] }
    unfold statements
    dsimp only
    split
    next => exact .nil (Nat.le_refl _)
    next rest hc =>
      simpa [trees] using statements_fresh n { c with rest, constructs := [.topLevel] }
    next t rest hc =>
      split
      next => exact .nil (Nat.le_refl _)
      next =>
        split
        next s c' hs =>
          obtain ⟨w, q, hm, -⟩ := Parser.declaration_reads f hs
          simpa [trees] using hm.ids.append (statements_fresh n c')
        next r c' hr =>
          -- identities of a statement that is refused are lost
          rw [hr] at hforward
          let q := recover c'.last c'.rest
          have hrest := statements_fresh (f := f) n { c' with rest := q.rest, last := q.last }
          have hall := (Fresh.nil hforward.nextId).append hrest
          simpa [trees] using hall
        next => exact .nil (Nat.le_refl _)

theorem CharStream.parse_fresh (firstId : Nat) (text : CharStream) :
    Fresh firstId (text.parse firstId).nextId (Stmt.idsOf (text.parse firstId).trees) :=
  Parse.statements_fresh _ { rest := text.lexemes, nextId := firstId }

/-- The parse with identities that are later by `k`. -/
def Parse.later (k : Nat) (p : Parse) : Parse :=
  ⟨p.results.map (Except.map (Stmt.mapIds (· + k))), p.nextId + k⟩

@[simp] theorem Parse.errors_later (k : Nat) (p : Parse) : (p.later k).errors = p.errors := by
  rw [errors, errors, later, List.filterMap_map]
  refine List.filterMap_congr fun r _ => ?_
  cases r <;> rfl

@[simp] theorem Parse.trees_later (k : Nat) (p : Parse) :
    (p.later k).trees = Stmt.mapIdsOf (· + k) p.trees := by
  rw [trees, trees, later, List.filterMap_map, Stmt.mapIdsOf_eq_map, List.map_filterMap]
  refine List.filterMap_congr fun r _ => ?_
  cases r <;> rfl

theorem Parse.statements_later (k f : Nat) : ∀ (n : Nat) (c : Cursor),
    statements f n (c.later k) = (statements f n c).later k
  | 0, c => rfl
  | n + 1, c => by
    have hd := Parser.declaration_later (k := k) f { c with constructs := [.topLevel] }
    have htail := statements_later k f n
    simp only [Cursor.later] at hd htail
    simp only [statements, Cursor.later]
    cases hc : c.rest with
    | nil => rfl
    | cons lexeme rest =>
      cases lexeme with
      | error e =>
        dsimp only
        rw [htail { c with rest, constructs := [.topLevel] }]
        rfl
      | ok t =>
        rw [hc] at hd
        dsimp only
        split
        · rfl
        · revert hd
          generalize Parser.declaration f _ = r, Parser.declaration f _ = r'
          rintro (@⟨s, _, c', rfl⟩ | @⟨r, c'⟩ | _)
          · dsimp only
            rw [Cursor.later, htail c']
            rfl
          · dsimp only [Cursor.later]
            rw [htail { c' with rest := (recover c'.last c'.rest).rest
                                last := (recover c'.last c'.rest).last }]
            simp [later, Refusal.error, Except.map, Function.comp_def]
          · rfl

/-- **With a later counter a text has the same errors, and its trees have later identities.** -/
theorem CharStream.parse_later (k firstId : Nat) (text : CharStream) :
    text.parse (firstId + k) = (text.parse firstId).later k :=
  Parse.statements_later k _ _ { rest := text.lexemes, nextId := firstId }

end ClassScript
