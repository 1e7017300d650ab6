/-
# A program of the grammar is read

Where the tokens in front of a cursor are derived as a declaration, the parser of
declarations does not refuse, and if it has fuel enough it reads them and builds the tree
of the derivation. A statement that ends with an open `if` must not be followed by an
`else`; behind a declaration of a block or of a program there is none.

Key definition: `CompletesAs`. Key theorem: `Sentence.completes`.
-/
import ClassScript.Proofs.Syntax.Completeness

namespace ClassScript

/-! ### How statements begin -/

/-- The tokens that a statement begins with. -/
def Token.beginsStatement : Token → Bool
  | .symbol .forWord | .symbol .ifWord | .symbol .printWord | .symbol .returnWord
  | .symbol .whileWord | .symbol .openBrace => true
  | t => t.beginsExpression

/-- The tokens that a declaration begins with. -/
def Token.beginsDeclaration : Token → Bool
  | .symbol .classWord | .symbol .funWord | .symbol .varWord => true
  | t => t.beginsStatement

theorem Token.beginsStatement_of_expression {t : Token} (h : t.beginsExpression = true) :
    t.beginsStatement = true := by
  unfold Token.beginsStatement
  split
  · rfl
  · rfl
  · rfl
  · rfl
  · rfl
  · rfl
  · exact h

theorem Token.beginsDeclaration_of_statement {t : Token} (h : t.beginsStatement = true) :
    t.beginsDeclaration = true := by
  unfold Token.beginsDeclaration
  split
  · rfl
  · rfl
  · rfl
  · exact h

namespace Grammar

/-- The tokens that a nonterminal begins with. -/
def Category.Begins : Category → Token → Prop
  | .declaration, t => t.beginsDeclaration = true
  | .statement, t => t.beginsStatement = true
  | .function, t => ∃ x, t = .name x
  | .varDecl, t => t = .symbol .varWord
  | .exprStmt, t => t.beginsExpression = true
  | .forInit, t => t = .symbol .varWord ∨ t.beginsExpression = true

theorem Sentence.begins {k : Category} {w : List Token} {p : Phrase} (h : Sentence k w p) :
    ∃ t u, w = t :: u ∧ k.Begins t := by
  induction h with
  | classDecl | funDecl | print | «return» | block | branch | branchElse | loop | forBare
  | forInit => exact ⟨_, _, rfl, rfl⟩
  | function x => exact ⟨_, _, rfl, x, rfl⟩
  | var => exact ⟨_, _, rfl, rfl⟩
  | ofVarDecl _ ih =>
    obtain ⟨t, u, rfl, rfl⟩ := ih
    exact ⟨_, _, rfl, rfl⟩
  | ofStatement _ ih =>
    obtain ⟨t, u, rfl, ht⟩ := ih
    exact ⟨t, u, rfl, Token.beginsDeclaration_of_statement ht⟩
  | ofExprStmt _ ih =>
    obtain ⟨t, u, rfl, ht⟩ := ih
    exact ⟨t, u, rfl, Token.beginsStatement_of_expression ht⟩
  | expression h =>
    obtain ⟨t, u, rfl, ht, -⟩ := h.begins
    exact ⟨t, _, rfl, ht⟩
  | initVar _ ih =>
    obtain ⟨t, u, rfl, ht⟩ := ih
    exact ⟨t, u, rfl, .inl ht⟩
  | initExpr _ ih =>
    obtain ⟨t, u, rfl, ht⟩ := ih
    exact ⟨t, u, rfl, .inr ht⟩

/-- What follows does not begin with `else`. -/
def NoElse (v : List Token) : Prop := v.headD .endOfInput ≠ .symbol .elseWord

end Grammar

namespace Parser

open Grammar

/-- Behind a declaration that is the statement of `p`, the tokens `v` are left. -/
def LeftStmt (p : Phrase) (v : List Token) (s : Stmt) (c : Cursor) : Prop :=
  s.bare = p.stmt ∧ Faces c v

/-- The parser of the category `k` reads `w` as `p`. -/
def CompletesAs : Category → List Token → Phrase → Prop
  | .declaration, w, p => ∀ ⦃f c v⦄, (p.endsOpen = true → NoElse v) → Faces c (w ++ v) →
      (declaration f c).Meets (LeftStmt p v)
  | .statement, w, p => ∀ ⦃f c v⦄, (p.endsOpen = true → NoElse v) → Faces c (w ++ v) →
      (statement f c).Meets (LeftStmt p v)
  | .function, w, p => ∀ ⦃f c v⦄, Faces c (w ++ v) →
      (function (declaration f) f c).Meets fun d c' =>
        Stmt.function .blank d.bare = p.stmt ∧ Faces c' v
  | .varDecl, w, p => ∀ ⦃f c v⦄, Faces c (w ++ v) →
      (varDecl (expression f) c).Meets (LeftStmt p v)
  | .exprStmt, w, p => ∀ ⦃f c v⦄, Faces c (w ++ v) →
      (exprStmt (expression f) c).Meets (LeftStmt p v)
  | .forInit, w, p => ∀ ⦃f c v⦄, Faces c (w ++ v) →
      (forInit (expression f) c).Meets fun o c' => (∃ s, o = some s ∧ s.bare = p.stmt) ∧ Faces c' v

namespace CompletesAs

variable {u v w : List Token} {e : Expr} {p : Phrase} {f : Nat} {c : Cursor}

/-- A block is read as its statements. -/
theorem block_meets (body : List (List Token × Phrase))
    (hbody : ∀ d ∈ body, Sentence .declaration d.1 d.2)
    (hall : ∀ d ∈ body, CompletesAs .declaration d.1 d.2)
    (hc : Faces c (.symbol .openBrace :: ((body.map Prod.fst).flatten ++
      .symbol .closeBrace :: v))) :
    (block (declaration f) f c).Meets fun ss c' =>
      ss.map Stmt.bare = (body.map Prod.snd).map Phrase.stmt ∧ Faces c' v := by
  have hitems : ∀ c₁, Faces c₁ ((body.map Prod.fst).flatten ++ .symbol .closeBrace :: v) →
      (upToBrace (declaration f) f [] c₁).Meets fun ss c' =>
        ss.map Stmt.bare = (body.map Prod.snd).map Phrase.stmt ∧
          Faces c' (.symbol .closeBrace :: v) := by
    intro c₁ h₁
    refine meets_mono (upToBrace_meets (F := NoElse) (g := Stmt.bare) f
      (body.map fun d => (d.1, d.2.stmt)) [] ?_ (fun v => by simp [NoElse]) ?_
      (by simpa [Function.comp_def] using h₁)) ?_
    · intro y hy
      obtain ⟨d, hd, rfl⟩ := List.mem_map.mp hy
      exact fun c v hv hc => hall d hd (fun _ => hv) hc
    · intro y hy
      obtain ⟨d, hd, rfl⟩ := List.mem_map.mp hy
      obtain ⟨t, u, hu, ht⟩ := (hbody d hd).begins
      refine ⟨t, u, hu, ?_, ?_, fun v => ?_⟩
      · rintro rfl
        simp [Category.Begins, Token.beginsDeclaration, Token.beginsStatement,
          Token.beginsExpression] at ht
      · rintro rfl
        simp [Category.Begins, Token.beginsDeclaration, Token.beginsStatement,
          Token.beginsExpression] at ht
      · rintro rfl
        simp [Category.Begins, Token.beginsDeclaration, Token.beginsStatement,
          Token.beginsExpression] at ht
    · rintro ss c₂ ⟨hss, h₂⟩
      exact ⟨by simpa [Function.comp_def] using hss, h₂⟩
  refine meets_within (meets_bind (expect_meets hc) fun _ c₁ h₁ => ?_)
  refine meets_bind (hitems c₁ h₁) ?_
  rintro ss c₂ ⟨hss, h₂⟩
  exact meets_bind (expect_meets h₂) fun _ c₃ h₃ => ⟨hss, h₃⟩

theorem function (x : String) (params : List String) (body : List (List Token × Phrase))
    (hlen : params.length ≤ maxArguments) (hbody : ∀ d ∈ body, Sentence .declaration d.1 d.2)
    (hall : ∀ d ∈ body, CompletesAs .declaration d.1 d.2) :
    CompletesAs .function
      (.name x :: .symbol .openParen :: (commaSeparated (params.map fun x => [.name x]) ++
        .symbol .closeParen :: .symbol .openBrace ::
          ((body.map Prod.fst).flatten ++ [.symbol .closeBrace])))
      (.function (.mk x params (body.map Prod.snd))) := by
  intro f c v hc
  simp only [List.append_assoc, List.cons_append, List.nil_append] at hc
  have hparams : ∀ c₁ v, Faces c₁ (commaSeparated (params.map fun x => [.name x]) ++
      .symbol .closeParen :: v) →
      (commaListBefore .closeParen expectName Declared.span .tooManyParameters f c₁).Meets
        fun p c' => p.1.map Declared.name = params ∧ Faces c' v := by
    intro c₁ v h₁
    refine meets_mono (commaListBefore_meets (F := fun _ => True) (g := Declared.name)
      (fun _ => trivial) (fun _ => trivial) (by simp) f (params.map fun x => ([.name x], x)) ?_ ?_
      (by simpa using hlen) (by simpa [Function.comp_def] using h₁)) ?_
    · intro y hy
      obtain ⟨x, -, rfl⟩ := List.mem_map.mp hy
      exact fun c v _ hc => expectName_meets hc
    · intro y hy
      obtain ⟨x, -, rfl⟩ := List.mem_map.mp hy
      exact ⟨_, _, rfl, by simp⟩
    · rintro q c₂ ⟨hq, h₂⟩
      exact ⟨by simpa [Function.comp_def] using hq, h₂⟩
  refine meets_within (meets_bind (expectName_meets hc) ?_)
  rintro d c₁ ⟨hd, h₁⟩
  refine meets_bind (expect_meets h₁) fun _ c₂ h₂ => ?_
  refine meets_bind (hparams c₂ _ h₂) ?_
  rintro q c₃ ⟨hq, h₃⟩
  refine meets_bind (block_meets body hbody hall h₃) ?_
  rintro ss c₄ ⟨hss, h₄⟩
  refine ⟨?_, h₄⟩
  have hnames : q.1.map Declared.bare = params.map .ofName := by
    rw [← hq, List.map_map]
    rfl
  simp [FunctionDecl.bare, Phrase.stmt, FunctionPhrase.decl, Declared.bare, Declared.ofName, hd,
    hss, hnames]

/-- The superclass of a class is read if there is one. -/
theorem superclass_meets {parent : Option String}
    (hc : Faces c (superclassTokens parent ++ .symbol .openBrace :: w)) :
    (behind .less superclass c).Meets fun o c' =>
      o.map NameUse.bare = parent.map (⟨.blank, ·⟩) ∧ Faces c' (.symbol .openBrace :: w) := by
  cases parent with
  | none =>
    refine meets_mono (behind_none_meets hc (by simp [superclassTokens])) ?_
    rintro o c₁ ⟨rfl, rfl⟩
    exact ⟨rfl, hc⟩
  | some y =>
    have hname : ∀ c₁, Faces c₁ (.name y :: .symbol .openBrace :: w) →
        (superclass c₁).Meets fun u c' => u.name = y ∧ Faces c' (.symbol .openBrace :: w) := by
      intro c₁ h₁
      refine meets_bind (expectName_meets h₁) ?_
      rintro d c₂ ⟨hd, h₂⟩
      exact meets_bind (mint_meets _ h₂) fun m c₃ h₃ => ⟨hd, h₃⟩
    refine meets_mono (behind_some_meets hc hname) ?_
    rintro o c₁ ⟨u, rfl, hu, h₁⟩
    exact ⟨by simp [NameUse.bare, hu], h₁⟩

theorem classDecl (x : String) (parent : Option String)
    (methods : List (List Token × FunctionPhrase))
    (hmethods : ∀ m ∈ methods, Sentence .function m.1 (.function m.2))
    (hall : ∀ m ∈ methods, CompletesAs .function m.1 (.function m.2)) :
    CompletesAs .declaration
      (.symbol .classWord :: .name x :: (superclassTokens parent ++
        .symbol .openBrace :: ((methods.map Prod.fst).flatten ++ [.symbol .closeBrace])))
      (.classDecl x parent (methods.map Prod.snd)) := by
  intro f c v _ hc
  cases f with
  | zero => trivial
  | succ f =>
    simp only [List.append_assoc, List.cons_append, List.nil_append] at hc
    simp only [declaration, staged_eq]
    refine meets_peek hc fun t ht => ?_
    simp only [ht]
    have hitems : ∀ c₂, Faces c₂ ((methods.map Prod.fst).flatten ++ .symbol .closeBrace :: v) →
        (upToBrace (Parser.function (declaration f) f) f [] c₂).Meets fun ds c' =>
          ds.map FunctionDecl.bare = (methods.map Prod.snd).map FunctionPhrase.decl ∧
            Faces c' (.symbol .closeBrace :: v) := by
      intro c₂ h₂
      refine meets_mono (upToBrace_meets (F := fun _ => True) (g := FunctionDecl.bare) f
        (methods.map fun d => (d.1, d.2.decl)) [] ?_ (fun _ => trivial) ?_
        (by simpa [Function.comp_def] using h₂)) ?_
      · intro y hy
        obtain ⟨d, hd, rfl⟩ := List.mem_map.mp hy
        intro c v _ hc
        refine meets_mono (hall d hd hc) fun a c' h => ?_
        simpa [Phrase.stmt] using h
      · intro y hy
        obtain ⟨d, hd, rfl⟩ := List.mem_map.mp hy
        obtain ⟨t, u, hu, x, rfl⟩ := (hmethods d hd).begins
        exact ⟨_, u, hu, by simp, by simp, fun _ => trivial⟩
      · rintro ds c₃ ⟨hds, h₃⟩
        exact ⟨by simpa [Function.comp_def] using hds, h₃⟩
    refine meets_within (meets_bind (expect_meets hc) fun _ c₂ h₂ => ?_)
    refine meets_bind (expectName_meets h₂) ?_
    rintro d c₃ ⟨hd, h₃⟩
    refine meets_bind (superclass_meets h₃) ?_
    rintro o c₄ ⟨ho, h₄⟩
    refine meets_bind (expect_meets h₄) fun _ c₅ h₅ => ?_
    refine meets_bind (hitems c₅ h₅) ?_
    rintro ds c₆ ⟨hds, h₆⟩
    refine meets_bind (expect_meets h₆) fun _ c₇ h₇ => ⟨?_, h₇⟩
    simp [Stmt.bare, Phrase.stmt, Declared.bare, Declared.ofName, hd, ho, hds]

theorem funDecl (h : CompletesAs .function w p) :
    CompletesAs .declaration (.symbol .funWord :: w) p := by
  intro f c v _ hc
  cases f with
  | zero => trivial
  | succ f =>
    simp only [declaration, staged_eq]
    refine meets_peek hc fun t ht => ?_
    simp only [ht]
    refine meets_bind (next_meets hc) fun _ c₂ h₂ => ?_
    refine meets_bind (h h₂) ?_
    rintro d c₃ ⟨hd, h₃⟩
    exact meets_bind (last_meets h₃) fun _ c₄ h₄ => ⟨hd, h₄⟩

theorem ofVarDecl (h : CompletesAs .varDecl w p) (hw : Sentence .varDecl w p) :
    CompletesAs .declaration w p := by
  intro f c v _ hc
  cases f with
  | zero => trivial
  | succ f =>
    simp only [declaration, staged_eq]
    refine meets_bind (peek_meets hc) ?_
    rintro t c₁ ⟨ht, rfl⟩
    obtain ⟨t', u, rfl, rfl⟩ := hw.begins
    rw [List.cons_append, List.headD_cons] at ht
    simp only [ht]
    exact h hc

theorem ofStatement (h : CompletesAs .statement w p) (hw : Sentence .statement w p) :
    CompletesAs .declaration w p := by
  intro f c v hv hc
  cases f with
  | zero => trivial
  | succ f =>
    simp only [declaration, staged_eq]
    refine meets_bind (peek_meets hc) ?_
    rintro t c₁ ⟨ht, rfl⟩
    obtain ⟨t', u, rfl, hbegins⟩ := hw.begins
    rw [List.cons_append, List.headD_cons] at ht
    rw [← ht, Category.Begins] at hbegins
    show Reply.Meets _ (answer _ c₁)
    split
    next h => rw [h] at hbegins; cases hbegins
    next h => rw [h] at hbegins; cases hbegins
    next h => rw [h] at hbegins; cases hbegins
    next => exact h hv hc

theorem ofExprStmt (h : CompletesAs .exprStmt w p) (hw : Sentence .exprStmt w p) :
    CompletesAs .statement w p := by
  intro f c v hv hc
  cases f with
  | zero => trivial
  | succ f =>
    simp only [statement, staged_eq]
    refine meets_bind (peek_meets hc) ?_
    rintro t c₁ ⟨ht, rfl⟩
    obtain ⟨t', u, rfl, hbegins⟩ := hw.begins
    rw [List.cons_append, List.headD_cons] at ht
    rw [← ht, Category.Begins] at hbegins
    show Reply.Meets _ (answer _ c₁)
    split
    case h_7 => exact h hc
    all_goals next h => rw [h] at hbegins; cases hbegins

theorem var {init : Option Expr} (x : String) (h : Initializer w init) :
    CompletesAs .varDecl (.symbol .varWord :: .name x :: (w ++ [.symbol .semicolon]))
      (.var x init) := by
  intro f c v hc
  simp only [List.append_assoc, List.cons_append, List.nil_append] at hc
  have hinit : ∀ c₁, Faces c₁ (w ++ .symbol .semicolon :: v) →
      (behind .equal (expression f) c₁).Meets fun o c' =>
        o.map Expr.bare = init ∧ Faces c' (.symbol .semicolon :: v) := by
    intro c₁ h₁
    cases h with
    | none =>
      refine meets_mono (behind_none_meets h₁ (by simp)) ?_
      rintro o c₂ ⟨rfl, rfl⟩
      exact ⟨rfl, h₁⟩
    | some he =>
      refine meets_mono (behind_some_meets h₁ fun c₂ h₂ =>
        expression_completes he f (.head (.symbol .semicolon) _) h₂) ?_
      rintro o c₂ ⟨a, rfl, ha, h₂⟩
      exact ⟨by simp [ha], h₂⟩
  refine meets_within (meets_bind (expect_meets hc) fun _ c₁ h₁ => ?_)
  refine meets_bind (expectName_meets h₁) ?_
  rintro d c₂ ⟨hd, h₂⟩
  refine meets_bind (hinit c₂ h₂) ?_
  rintro o c₃ ⟨ho, h₃⟩
  refine meets_bind (expect_meets h₃) fun _ c₄ h₄ => ⟨?_, h₄⟩
  simp [Stmt.bare, Phrase.stmt, hd, ho]

theorem expression (h : Expression .assignment w e) :
    CompletesAs .exprStmt (w ++ [.symbol .semicolon]) (.expression e) := by
  intro f c v hc
  rw [List.append_assoc] at hc
  refine meets_within (meets_bind (expression_completes h f (.head (.symbol .semicolon) _) hc) ?_)
  rintro a c₁ ⟨ha, h₁⟩
  refine meets_bind (expect_meets h₁) fun _ c₂ h₂ => ⟨?_, h₂⟩
  simp [Stmt.bare, Phrase.stmt, ha]

theorem print (h : Expression .assignment w e) :
    CompletesAs .statement (.symbol .printWord :: (w ++ [.symbol .semicolon])) (.print e) := by
  intro f c v _ hc
  cases f with
  | zero => trivial
  | succ f =>
    simp only [List.append_assoc, List.cons_append, List.nil_append] at hc
    simp only [statement, staged_eq]
    refine meets_peek hc fun t ht => ?_
    simp only [ht]
    refine meets_within (meets_bind (expect_meets hc) fun _ c₁ h₁ => ?_)
    refine meets_bind (expression_completes h f (.head (.symbol .semicolon) _) h₁) ?_
    rintro a c₂ ⟨ha, h₂⟩
    refine meets_bind (expect_meets h₂) fun _ c₃ h₃ => ⟨?_, h₃⟩
    simp [Stmt.bare, Phrase.stmt, ha]

/-- An expression that may be missing is read in front of the symbol behind it. -/
theorem optional_meets {o : Option Expr} {s : Symbol} (h : Optional (Expression .assignment) w o)
    (hs : (Token.symbol s).binding = 8) (hbegins : (Token.symbol s).beginsExpression = false)
    (hc : Faces c (w ++ .symbol s :: v)) :
    (unlessNext s (Parser.expression f) c).Meets fun a c' =>
      a.map Expr.bare = o ∧ Faces c' (.symbol s :: v) := by
  cases h with
  | none =>
    refine meets_mono (unlessNext_none_meets hc) ?_
    rintro a c₁ ⟨rfl, rfl⟩
    exact ⟨rfl, hc⟩
  | some he =>
    have hne : (w ++ .symbol s :: v).headD .endOfInput ≠ .symbol s := by
      obtain ⟨t, u, rfl, ht, -⟩ := he.begins
      rintro rfl
      rw [hbegins] at ht
      cases ht
    refine meets_mono (unlessNext_some_meets hc hne
      (expression_completes he f (hs ▸ .head (.symbol s) v) hc)) ?_
    rintro a c₁ ⟨b, rfl, hb, h₁⟩
    exact ⟨by simp [hb], h₁⟩

theorem «return» {o : Option Expr} (h : Optional (Expression .assignment) w o) :
    CompletesAs .statement (.symbol .returnWord :: (w ++ [.symbol .semicolon])) (.return o) := by
  intro f c v _ hc
  cases f with
  | zero => trivial
  | succ f =>
    simp only [List.append_assoc, List.cons_append, List.nil_append] at hc
    simp only [statement, staged_eq]
    refine meets_peek hc fun t ht => ?_
    simp only [ht]
    refine meets_within (meets_bind (expect_meets hc) fun _ c₁ h₁ => ?_)
    refine meets_bind (optional_meets h rfl rfl h₁) ?_
    rintro a c₂ ⟨ha, h₂⟩
    refine meets_bind (expect_meets h₂) fun _ c₃ h₃ => ⟨?_, h₃⟩
    simp [Stmt.bare, Phrase.stmt, ha]

theorem block (body : List (List Token × Phrase))
    (hbody : ∀ d ∈ body, Sentence .declaration d.1 d.2)
    (hall : ∀ d ∈ body, CompletesAs .declaration d.1 d.2) :
    CompletesAs .statement
      (.symbol .openBrace :: ((body.map Prod.fst).flatten ++ [.symbol .closeBrace]))
      (.block (body.map Prod.snd)) := by
  intro f c v _ hc
  cases f with
  | zero => trivial
  | succ f =>
    simp only [List.append_assoc, List.cons_append, List.nil_append] at hc
    simp only [statement, staged_eq]
    refine meets_peek hc fun t ht => ?_
    simp only [ht]
    refine meets_peek hc fun _ _ => ?_
    refine meets_bind (block_meets body hbody hall hc) ?_
    rintro ss c₁ ⟨hss, h₁⟩
    refine meets_bind (last_meets h₁) fun _ c₂ h₂ => ⟨?_, h₂⟩
    simp [Stmt.bare, Phrase.stmt, hss]

theorem branch {yes : Phrase} (h : Expression .assignment u e)
    (hyes : CompletesAs .statement w yes) :
    CompletesAs .statement
      (.symbol .ifWord :: .symbol .openParen :: (u ++ .symbol .closeParen :: w))
      (.branch e yes) := by
  intro f c v hv hc
  cases f with
  | zero => trivial
  | succ f =>
    simp only [List.append_assoc, List.cons_append] at hc
    simp only [statement, staged_eq]
    refine meets_peek hc fun t ht => ?_
    simp only [ht]
    refine meets_within (meets_bind (expect_meets hc) fun _ c₁ h₁ => ?_)
    refine meets_bind (expect_meets h₁) fun _ c₂ h₂ => ?_
    refine meets_bind (expression_completes h f (.head (.symbol .closeParen) _) h₂) ?_
    rintro a c₃ ⟨ha, h₃⟩
    refine meets_bind (expect_meets h₃) fun _ c₄ h₄ => ?_
    refine meets_bind (hyes (fun _ => hv rfl) h₄) ?_
    rintro y c₅ ⟨hy, h₅⟩
    refine meets_bind (behind_none_meets h₅ (hv rfl)) ?_
    rintro o c₆ ⟨rfl, rfl⟩
    refine meets_bind (last_meets h₅) fun _ c₇ h₇ => ⟨?_, h₇⟩
    simp [Stmt.bare, Phrase.stmt, ha, hy]

theorem branchElse {y z : List Token} {yes no : Phrase} (h : Expression .assignment u e)
    (hyes : CompletesAs .statement y yes) (hopen : yes.endsOpen = false)
    (hno : CompletesAs .statement z no) :
    CompletesAs .statement
      (.symbol .ifWord :: .symbol .openParen ::
        (u ++ .symbol .closeParen :: (y ++ .symbol .elseWord :: z)))
      (.branchElse e yes no) := by
  intro f c v hv hc
  cases f with
  | zero => trivial
  | succ f =>
    simp only [List.append_assoc, List.cons_append] at hc
    simp only [statement, staged_eq]
    refine meets_peek hc fun t ht => ?_
    simp only [ht]
    refine meets_within (meets_bind (expect_meets hc) fun _ c₁ h₁ => ?_)
    refine meets_bind (expect_meets h₁) fun _ c₂ h₂ => ?_
    refine meets_bind (expression_completes h f (.head (.symbol .closeParen) _) h₂) ?_
    rintro a c₃ ⟨ha, h₃⟩
    refine meets_bind (expect_meets h₃) fun _ c₄ h₄ => ?_
    refine meets_bind (hyes (fun h => by simp [hopen] at h) h₄) ?_
    rintro s c₅ ⟨hs, h₅⟩
    refine meets_bind (behind_some_meets h₅ fun c₆ h₆ => hno (f := f) hv h₆) ?_
    rintro o c₆ ⟨s', rfl, hs', h₆⟩
    refine meets_bind (last_meets h₆) fun _ c₇ h₇ => ⟨?_, h₇⟩
    simp [Stmt.bare, Phrase.stmt, ha, hs, hs']

theorem loop {body : Phrase} (h : Expression .assignment u e)
    (hbody : CompletesAs .statement w body) :
    CompletesAs .statement
      (.symbol .whileWord :: .symbol .openParen :: (u ++ .symbol .closeParen :: w))
      (.loop e body) := by
  intro f c v hv hc
  cases f with
  | zero => trivial
  | succ f =>
    simp only [List.append_assoc, List.cons_append] at hc
    simp only [statement, staged_eq]
    refine meets_peek hc fun t ht => ?_
    simp only [ht]
    refine meets_within (meets_bind (expect_meets hc) fun _ c₁ h₁ => ?_)
    refine meets_bind (expect_meets h₁) fun _ c₂ h₂ => ?_
    refine meets_bind (expression_completes h f (.head (.symbol .closeParen) _) h₂) ?_
    rintro a c₃ ⟨ha, h₃⟩
    refine meets_bind (expect_meets h₃) fun _ c₄ h₄ => ?_
    refine meets_bind (hbody hv h₄) ?_
    rintro s c₅ ⟨hs, h₅⟩
    refine meets_bind (last_meets h₅) fun _ c₆ h₆ => ⟨?_, h₆⟩
    simp [Stmt.bare, Phrase.stmt, ha, hs]

theorem forCondition_meets {o : Option Expr} {sign : Span} (hc : Faces c v) :
    (forCondition sign o c).Meets fun a c' =>
      a.bare = .orTrue (o.map Expr.bare) ∧ Faces c' v := by
  cases o with
  | some => exact ⟨rfl, hc⟩
  | none => exact meets_bind (mint_meets sign hc) fun m c₁ h₁ => ⟨rfl, h₁⟩

/-- A `for` statement is read if its initializer is. -/
theorem forLoop {i y z : List Token} {init : Option Phrase} {o o' : Option Expr} {body : Phrase}
    (hinit : ∀ f c v, Faces c (i ++ v) → (Parser.forInit (Parser.expression f) c).Meets fun s c' =>
      s.map Stmt.bare = init.map Phrase.stmt ∧ Faces c' v)
    (ho : Optional (Expression .assignment) y o) (ho' : Optional (Expression .assignment) z o')
    (hbody : CompletesAs .statement w body) :
    CompletesAs .statement
      (.symbol .forWord :: .symbol .openParen ::
        (i ++ (y ++ .symbol .semicolon :: (z ++ .symbol .closeParen :: w))))
      (.forLoop init o o' body) := by
  intro f c v hv hc
  cases f with
  | zero => trivial
  | succ f =>
    simp only [List.append_assoc, List.cons_append] at hc
    simp only [statement, staged_eq]
    refine meets_peek hc fun t ht => ?_
    simp only [ht]
    refine meets_within (meets_bind (expect_meets hc) fun _ c₁ h₁ => ?_)
    refine meets_bind (expect_meets h₁) fun _ c₂ h₂ => ?_
    refine meets_bind (hinit f c₂ _ h₂) ?_
    rintro s c₃ ⟨hs, h₃⟩
    refine meets_bind (optional_meets ho rfl rfl h₃) ?_
    rintro a c₄ ⟨ha, h₄⟩
    refine meets_bind (expect_meets h₄) fun _ c₅ h₅ => ?_
    refine meets_bind (optional_meets ho' rfl rfl h₅) ?_
    rintro a' c₆ ⟨ha', h₆⟩
    refine meets_bind (expect_meets h₆) fun _ c₇ h₇ => ?_
    refine meets_bind (hbody hv h₇) ?_
    rintro s' c₈ ⟨hs', h₈⟩
    refine meets_bind (last_meets h₈) fun _ c₉ h₉ => ?_
    refine meets_bind (forCondition_meets h₉) ?_
    rintro b c₁₀ ⟨hb, h₁₀⟩
    refine ⟨?_, h₁₀⟩
    rw [← ha', Phrase.stmt_forLoop, Stmt.bare_forLoop, hs, hb, ha, hs']

theorem forBare {y z : List Token} {o o' : Option Expr} {body : Phrase}
    (ho : Optional (Expression .assignment) y o) (ho' : Optional (Expression .assignment) z o')
    (hbody : CompletesAs .statement w body) :
    CompletesAs .statement
      (.symbol .forWord :: .symbol .openParen :: .symbol .semicolon ::
        (y ++ .symbol .semicolon :: (z ++ .symbol .closeParen :: w)))
      (.forLoop none o o' body) := by
  refine forLoop (i := [.symbol .semicolon]) (fun f c v hc => ?_) ho ho' hbody
  refine meets_peek hc fun t ht => ?_
  simp only [ht]
  exact meets_bind (next_meets hc) fun _ c₁ h₁ => ⟨rfl, h₁⟩

theorem forInit {i y z : List Token} {init : Phrase} {o o' : Option Expr} {body : Phrase}
    (hinit : CompletesAs .forInit i init) (ho : Optional (Expression .assignment) y o)
    (ho' : Optional (Expression .assignment) z o') (hbody : CompletesAs .statement w body) :
    CompletesAs .statement
      (.symbol .forWord :: .symbol .openParen ::
        (i ++ (y ++ .symbol .semicolon :: (z ++ .symbol .closeParen :: w))))
      (.forLoop (some init) o o' body) := by
  refine forLoop (fun f c v hc => meets_mono (hinit hc) ?_) ho ho' hbody
  rintro a c₁ ⟨⟨s, rfl, hs⟩, h₁⟩
  exact ⟨by simp [hs], h₁⟩

theorem initVar (h : CompletesAs .varDecl w p) (hw : Sentence .varDecl w p) :
    CompletesAs .forInit w p := by
  intro f c v hc
  obtain ⟨t, u, rfl, rfl⟩ := hw.begins
  refine meets_peek hc fun t ht => ?_
  simp only [ht]
  exact meets_bind (h hc) fun s c₁ hs => ⟨⟨s, rfl, hs.1⟩, hs.2⟩

theorem initExpr (h : CompletesAs .exprStmt w p) (hw : Sentence .exprStmt w p) :
    CompletesAs .forInit w p := by
  intro f c v hc
  obtain ⟨t, u, rfl, hbegins⟩ := hw.begins
  refine meets_peek hc fun t' ht => ?_
  rw [← ht, Category.Begins] at hbegins
  show Reply.Meets _ (answer _ c)
  split
  next h => rw [h] at hbegins; cases hbegins
  next h => rw [h] at hbegins; cases hbegins
  next => exact meets_bind (h hc) fun s c₁ hs => ⟨⟨s, rfl, hs.1⟩, hs.2⟩

end CompletesAs

/-- **A derivation is read** as the phrase it has. -/
theorem Sentence.completes {k : Category} {w : List Token} {p : Phrase} (h : Sentence k w p) :
    CompletesAs k w p := by
  induction h with
  | classDecl x parent methods hm ih => exact .classDecl x parent methods hm ih
  | funDecl _ ih => exact ih.funDecl
  | ofVarDecl h ih => exact ih.ofVarDecl h
  | ofStatement h ih => exact ih.ofStatement h
  | function x params body hlen hbody ih => exact .function x params body hlen hbody ih
  | var x h => exact .var x h
  | ofExprStmt h ih => exact ih.ofExprStmt h
  | expression h => exact .expression h
  | print h => exact .print h
  | «return» h => exact .return h
  | block body hbody ih => exact .block body hbody ih
  | branch h _ ih => exact .branch h ih
  | branchElse h _ hopen _ ihy ihn => exact .branchElse h ihy hopen ihn
  | loop h _ ih => exact .loop h ih
  | forBare ho ho' _ ih => exact .forBare ho ho' ih
  | forInit _ ho ho' _ ihi ihb => exact .forInit ihi ho ho' ihb
  | initVar h ih => exact ih.initVar h
  | initExpr h ih => exact ih.initExpr h

end Parser
end ClassScript
