/-
# Parsing ends

A parser is given fuel, and it has to be shown that the fuel is no more than a way to write down
a recursion that ends. It is: with fuel in proportion to the lexemes that are left, each routine
of the parser gives an answer, and no more fuel changes that (`Settles`). What a parse yields
statement by statement can then be said without fuel (`Iterates`), and each result takes a
lexeme that is not the end of the input: a statement the first token of it, an error the lexeme
that it names or the one that the parse was refused at, which skipping always takes.

Key theorems: `Routine.settles`, `Iterates.length_le`, `parsing_ends`.
-/
import ClassScript.Proofs.Syntax.Fuel
import ClassScript.Proofs.Syntax.Recovery

namespace ClassScript
namespace Parser

variable {α : Type}

/-! ### Routines -/

/-- With fuel in proportion to the lexemes left, or with more, the parser answers, and always in the
same way. -/
def Settles (p : Nat → Parser α) : Prop :=
  ∀ c : Cursor, ∃ r, r ≠ .exhausted ∧ ∀ f, 3 * c.rest.length + 6 ≤ f → p f c = r

theorem Settles.of {p : Nat → Parser α} (ha : ∀ f n, 3 * n + 6 ≤ f → Answers n (p f))
    (hp : ∀ {f f' : Nat}, f ≤ f' → Paired none (p f) (p f')) : Settles p := by
  intro c
  have hc := ha _ c.rest.length (Nat.le_refl _) c (Nat.le_refl _)
  exact ⟨_, hc, fun f hf => (hp hf).refines c hc⟩

/-- The routines of the parser, as functions of their fuel: one for each rule of the grammar, and
the loops in them at any round. -/
inductive Routine : {α : Type} → (Nat → Parser α) → Prop where
  | declaration : Routine declaration
  | classDecl : Routine fun f => classDecl (declaration f) f
  | classBody (found : List FunctionDecl) :
      Routine fun f => upToBrace (function (Parser.declaration f) f) f found
  | function : Routine fun f => function (Parser.declaration f) f
  | parameters (found : List Declared) :
      Routine fun f => commaList expectName Declared.span .tooManyParameters f found
  | varDecl : Routine fun f => varDecl (expression f)
  | statement : Routine statement
  | block : Routine fun f => block (Parser.declaration f) f
  | blockBody (found : List Stmt) : Routine fun f => upToBrace (Parser.declaration f) f found
  | exprStmt : Routine fun f => exprStmt (expression f)
  | printStmt : Routine fun f => printStmt (expression f)
  | returnStmt : Routine fun f => returnStmt (expression f)
  | ifStmt : Routine fun f => ifStmt (expression f) (Parser.statement f)
  | whileStmt : Routine fun f => whileStmt (expression f) (Parser.statement f)
  | forStmt : Routine fun f => forStmt (expression f) (Parser.statement f)
  | expression : Routine expression
  | assignment : Routine assignment
  | logicalOr : Routine fun f => logicalOr (unary f) f
  | orOperands (left : Expr) :
      Routine fun f => chain (Parser.logicalAnd (unary f) f) (logicalOp? .or) Expr.logical f left
  | logicalAnd : Routine fun f => logicalAnd (unary f) f
  | andOperands (left : Expr) :
      Routine fun f => chain (operand (unary f) f BinaryOp.loosest) (logicalOp? .and) Expr.logical f left
  | operand (level : Nat) : Routine fun f => operand (unary f) f level
  | operands (level : Nat) (left : Expr) :
      Routine fun f => chain (Parser.operand (unary f) f level) (BinaryOp.atLevel? (level + 1))
        Expr.binary f left
  | unary : Routine unary
  | call : Routine fun f => call (Parser.expression f) f
  | suffixes (e : Expr) : Routine fun f => suffixes (Parser.expression f) f e
  | arguments (found : List Expr) :
      Routine fun f => commaList (Parser.expression f) Expr.span .tooManyArguments f found
  | primary : Routine fun f => primary (Parser.expression f)

/-- **Every routine of the parser ends.** -/
theorem Routine.settles {p : Nat → Parser α} (h : Routine p) : Settles p := by
  cases h with
  | declaration => exact .of declaration_answers declaration_paired
  | classDecl =>
    refine .of (fun f n hf => ?_) fun hf => .classDecl (declaration_paired hf) hf
    exact .classDecl (declaration_reads f).reads (built_declaration f) (by omega) fun m hm =>
      declaration_answers f m (by omega)
  | classBody found =>
    refine .of (fun f n hf => ?_) fun hf => .upToBrace (.function (declaration_paired hf) hf) hf _
    refine .upToBrace (.function (declaration_reads f).reads f) f n found (by omega) ?_
    exact .function (.declaration f) (built_declaration f) (by omega) fun m hm =>
      declaration_answers f m (by omega)
  | function =>
    refine .of (fun f n hf => ?_) fun hf => .function (declaration_paired hf) hf
    exact .function (.declaration f) (built_declaration f) (by omega) fun m hm =>
      declaration_answers f m (by omega)
  | parameters found =>
    refine .of (fun f n hf => ?_) fun hf => .commaList .expectName .expectName hf _
    exact .commaList .expectName f n found (by omega) .expectName
  | varDecl =>
    refine .of (fun f n hf => ?_) fun hf => .varDecl (expression_paired hf)
    exact .varDecl (built_expression f) fun m hm => expression_answers f m (by omega)
  | statement => exact .of (fun f n hf => statement_answers f n (by omega)) statement_paired
  | block =>
    refine .of (fun f n hf => ?_) fun hf => .block (declaration_paired hf) hf
    exact .block (.declaration f) (built_declaration f) (by omega) fun m hm =>
      declaration_answers f m (by omega)
  | blockBody found =>
    refine .of (fun f n hf => ?_) fun hf => .upToBrace (declaration_paired hf) hf _
    exact .upToBrace (.declaration f) f n found (by omega) (declaration_answers f n hf)
  | exprStmt =>
    refine .of (fun f n hf => ?_) fun hf => .exprStmt (expression_paired hf)
    exact .exprStmt (built_expression f) (expression_answers f n (by omega))
  | printStmt =>
    refine .of (fun f n hf => ?_) fun hf => .printStmt (expression_paired hf)
    exact .printStmt (built_expression f) (expression_answers f n (by omega))
  | returnStmt =>
    refine .of (fun f n hf => ?_) fun hf => .returnStmt (expression_paired hf)
    exact .returnStmt (built_expression f) (expression_answers f n (by omega))
  | ifStmt =>
    refine .of (fun f n hf => ?_) fun hf => .ifStmt (expression_paired hf) (statement_paired hf)
    exact .ifStmt (built_expression f) (expression_answers f n (by omega)) (built_statement f)
      fun m hm => statement_answers f m (by omega)
  | whileStmt =>
    refine .of (fun f n hf => ?_) fun hf => .whileStmt (expression_paired hf) (statement_paired hf)
    exact .whileStmt (built_expression f) (expression_answers f n (by omega)) (built_statement f)
      fun m hm => statement_answers f m (by omega)
  | forStmt =>
    refine .of (fun f n hf => ?_) fun hf => .forStmt (expression_paired hf) (statement_paired hf)
    exact .forStmt (built_expression f) (expression_answers f n (by omega)) (built_statement f)
      fun m hm => statement_answers f m (by omega)
  | expression => exact .of (fun f n hf => expression_answers f n (by omega)) expression_paired
  | assignment => exact .of (fun f n hf => assignment_answers f n (by omega)) assignment_paired
  | logicalOr =>
    refine .of (fun f n hf => ?_) fun hf => .logicalOr (unary_paired hf) hf
    exact .logicalOr (built_unary f) (by omega) (unary_answers f n (by omega))
  | orOperands left =>
    refine .of (fun f n hf => ?_) fun hf => .chain (.logicalAnd (unary_paired hf) hf) hf left
    exact .chain (.logicalAnd (built_unary f) f) rfl f n left (by omega)
      (.logicalAnd (built_unary f) (by omega) (unary_answers f n (by omega)))
  | logicalAnd =>
    refine .of (fun f n hf => ?_) fun hf => .logicalAnd (unary_paired hf) hf
    exact .logicalAnd (built_unary f) (by omega) (unary_answers f n (by omega))
  | andOperands left =>
    refine .of (fun f n hf => ?_) fun hf => .chain (.operand (unary_paired hf) hf _) hf left
    exact .chain (.operand (built_unary f) f _) rfl f n left (by omega)
      (.operand (built_unary f) (by omega) (unary_answers f n (by omega)) _)
  | operand level =>
    refine .of (fun f n hf => ?_) fun hf => .operand (unary_paired hf) hf level
    exact .operand (built_unary f) (by omega) (unary_answers f n (by omega)) level
  | operands level left =>
    refine .of (fun f n hf => ?_) fun hf => .chain (.operand (unary_paired hf) hf level) hf left
    exact .chain (.operand (built_unary f) f level) rfl f n left (by omega)
      (.operand (built_unary f) (by omega) (unary_answers f n (by omega)) level)
  | unary => exact .of (fun f n hf => unary_answers f n (by omega)) unary_paired
  | call =>
    refine .of (fun f n hf => ?_) fun {f _} hf =>
      .call (expression_paired hf) (.derived (expression_reads f)) hf
    exact .call (built_expression f) (by omega) fun m hm => expression_answers f m (by omega)
  | suffixes e =>
    refine .of (fun f n hf => ?_) fun {f _} hf =>
      .suffixes (expression_paired hf) (.derived (expression_reads f)) hf e
    exact .suffixes (built_expression f) f n e (by omega) fun m hm =>
      expression_answers f m (by omega)
  | arguments found =>
    refine .of (fun f n hf => ?_) fun {f _} hf =>
      .commaList (expression_paired hf) (.derived (expression_reads f)) hf found
    exact .commaList (built_expression f) f n found (by omega) (expression_answers f n (by omega))
  | primary =>
    refine .of (fun f n hf => ?_) fun hf => .primary (expression_paired hf)
    exact .primary (built_expression f) fun m hm => expression_answers f m (by omega)

/-- The answer of a parser if it has enough fuel. -/
def Gives (p : Nat → Parser α) (c : Cursor) (r : Reply α) : Prop :=
  r ≠ .exhausted ∧ ∃ f₀, ∀ f, f₀ ≤ f → p f c = r

theorem Gives.unique {p : Nat → Parser α} {c : Cursor} {r r' : Reply α} (h : Gives p c r)
    (h' : Gives p c r') : r = r' := by
  obtain ⟨-, f, hf⟩ := h
  obtain ⟨-, f', hf'⟩ := h'
  rw [← hf (max f f') (Nat.le_max_left ..), hf' _ (Nat.le_max_right ..)]

/-- An answer that is given with some fuel is given with more. -/
theorem declaration_gives {f : Nat} {c : Cursor} {r : Reply Stmt} (h : declaration f c = r)
    (hr : r ≠ .exhausted) : Gives declaration c r := by
  refine ⟨hr, f, fun f' hf => ?_⟩
  rw [(declaration_paired hf).refines c (h ▸ hr), h]

end Parser

/-! ### Statement after statement -/

/-- The number of lexemes other than ends of input. -/
def countInner (ls : List Lexeme) : Nat :=
  ls.countP fun
    | .ok t => !Parser.isEnd t
    | .error _ => true

theorem countInner_append (ls ls' : List Lexeme) :
    countInner (ls ++ ls') = countInner ls + countInner ls' := List.countP_append

theorem countInner_token {t : PlacedToken} (ht : t.token ≠ .endOfInput) (ls : List Lexeme) :
    countInner (.ok t :: ls) = countInner ls + 1 := by
  have hend : Parser.isEnd t = false := Bool.not_eq_true _ ▸ fun h => ht (Parser.isEnd_iff.mp h)
  simp [countInner, hend]

theorem countInner_error (e : LexError) (ls : List Lexeme) :
    countInner (.error e :: ls) = countInner ls + 1 := by
  simp [countInner]

theorem lexicalErrors_length_le (ls : List Lexeme) : (lexicalErrors ls).length ≤ countInner ls := by
  induction ls with
  | nil => exact Nat.le_refl _
  | cons l ls ih =>
    cases l with
    | error e =>
      rw [lexicalErrors_error, countInner_error, List.length_cons]
      omega
    | ok t =>
      rw [lexicalErrors_ok]
      exact Nat.le_trans ih (List.sublist_cons_self ..).countP_le

/-- **Skipping takes a lexeme** unless the input ends. -/
theorem recover_rest_length_lt (last : Span) {ls : List Lexeme} (h : endsAt ls 0 = false) :
    (recover last ls).rest.length < ls.length := by
  obtain ⟨q, hq, hrest, -⟩ := (recovers last ls).2 h
  have hpos : 0 < q := hq.1.1
  have hls : 0 < ls.length := by
    cases ls with
    | nil => cases h
    | cons l ls => exact Nat.succ_pos _
  rw [hrest, List.length_drop]
  omega

namespace Parse

/-- What a parse yields from a cursor on, one result after the other. -/
inductive Iterates : Cursor → List (Except SyntaxError Stmt) → Prop where
  | ended {c : Cursor} : endsAt c.rest 0 = true → Iterates c []
  | lexical {c : Cursor} {e : LexError} {rest : List Lexeme} {results} :
      c.rest = .error e :: rest → Iterates { c with rest, constructs := [.topLevel] } results →
      Iterates c (.error (.atTopLevel e) :: results)
  | statement {c c' : Cursor} {t : PlacedToken} {rest : List Lexeme} {s : Stmt} {results} :
      c.rest = .ok t :: rest → t.token ≠ .endOfInput →
      Parser.Gives Parser.declaration { c with constructs := [.topLevel] } (.ok s c') →
      Iterates c' results → Iterates c (.ok s :: results)
  | refused {c c' : Cursor} {t : PlacedToken} {rest : List Lexeme} {r : Refusal} {results} :
      c.rest = .ok t :: rest → t.token ≠ .endOfInput →
      Parser.Gives Parser.declaration { c with constructs := [.topLevel] } (.refused r c') →
      Iterates { c' with
        rest := (recover c'.last c'.rest).rest, last := (recover c'.last c'.rest).last } results →
      Iterates c (.error (r.error c') ::
        ((recover c'.last c'.rest).errors.map fun e => .error (.atTopLevel e)) ++ results)

variable {f : Nat} {c c' : Cursor} {t : PlacedToken} {rest : List Lexeme} {r : Refusal}
  {results results' : List (Except SyntaxError Stmt)}

/-- A statement takes the token that it begins with. -/
theorem statement_takes {s : Stmt} (hc : c.rest = .ok t :: rest)
    (h : Parser.declaration f { c with constructs := [.topLevel] } = .ok s c') :
    c'.rest <:+ rest := by
  have hforward := (Parser.built_declaration f).forward { c with constructs := [.topLevel] }
  have heats := Parser.Eats.declaration f h
  rw [h] at hforward
  have hsuffix := hforward.rest
  dsimp only at heats hsuffix
  rw [hc] at heats hsuffix
  rcases List.suffix_cons_iff.mp hsuffix with heq | hrest
  · rw [heq] at heats
    exact absurd heats (Nat.lt_irrefl _)
  · exact hrest

/-- **A refusal takes more lexemes than there are errors skipped behind it.** -/
theorem refused_takes (hc : c.rest = .ok t :: rest) (ht : t.token ≠ .endOfInput)
    (h : Parser.declaration f { c with constructs := [.topLevel] } = .refused r c') :
    ∃ front, c.rest = front ++ (recover c'.last c'.rest).rest ∧ front ≠ [] ∧
      (recover c'.last c'.rest).errors.length < countInner front := by
  have hforward := (Parser.built_declaration f).forward { c with constructs := [.topLevel] }
  rw [h] at hforward
  obtain ⟨taken, htaken⟩ := hforward.rest
  dsimp only at htaken
  obtain ⟨skipped, hskipped, herrors⟩ := recover_spec c'.last c'.rest
  have hfront : c.rest = (taken ++ skipped) ++ (recover c'.last c'.rest).rest := by
    rw [List.append_assoc, ← hskipped, htaken]
  have hne : taken ++ skipped ≠ [] := by
    intro hnil
    -- the token at which the declaration begins would be left
    rw [List.append_eq_nil_iff] at hnil
    have hrest : c'.rest = .ok t :: rest := by rw [← hc, ← htaken, hnil.1, List.nil_append]
    have hend : endsAt c'.rest 0 = false := by
      rw [hrest]
      exact Bool.not_eq_true _ ▸ fun h => ht (Parser.isEnd_iff.mp h)
    have hlt := recover_rest_length_lt c'.last hend
    have hlength := congrArg List.length hskipped
    rw [hnil.2, List.nil_append] at hlength
    omega
  refine ⟨_, hfront, hne, ?_⟩
  obtain ⟨l, front, hl⟩ := List.exists_cons_of_ne_nil hne
  obtain rfl : l = .ok t := by
    rw [hc, hl, List.cons_append] at hfront
    exact (List.cons.inj hfront).1.symm
  calc (recover c'.last c'.rest).errors.length
      ≤ (lexicalErrors (taken ++ skipped)).length := by
        rw [herrors, lexicalErrors_append, List.length_append]
        omega
    _ = (lexicalErrors front).length := by rw [hl, lexicalErrors_ok]
    _ ≤ countInner front := lexicalErrors_length_le front
    _ < countInner (taken ++ skipped) := by
        rw [hl, countInner_token ht]
        omega

theorem Iterates.unique (h : Iterates c results) (h' : Iterates c results') :
    results = results' := by
  induction h generalizing results' with
  | ended hend =>
    cases h' with
    | ended => rfl
    | lexical hc => rw [hc] at hend; cases hend
    | statement hc ht | refused hc ht =>
      rw [hc] at hend
      exact absurd (Parser.isEnd_iff.mp hend) ht
  | lexical hc _ ih =>
    cases h' with
    | ended hend => rw [hc] at hend; cases hend
    | lexical hc' h' =>
      rw [hc] at hc'
      cases hc'
      rw [ih h']
    | statement hc' | refused hc' => rw [hc] at hc'; cases hc'
  | statement hc ht hgives _ ih =>
    cases h' with
    | ended hend =>
      rw [hc] at hend
      exact absurd (Parser.isEnd_iff.mp hend) ht
    | lexical hc' => rw [hc] at hc'; cases hc'
    | statement hc' _ hgives' h' =>
      cases hgives.unique hgives'
      rw [ih h']
    | refused hc' _ hgives' => cases hgives.unique hgives'
  | refused hc ht hgives _ ih =>
    cases h' with
    | ended hend =>
      rw [hc] at hend
      exact absurd (Parser.isEnd_iff.mp hend) ht
    | lexical hc' => rw [hc] at hc'; cases hc'
    | statement hc' _ hgives' => cases hgives.unique hgives'
    | refused hc' _ hgives' h' =>
      cases hgives.unique hgives'
      rw [ih h']

/-- **Each result takes a lexeme that is not the end of the input.** -/
theorem Iterates.length_le (h : Iterates c results) : results.length ≤ countInner c.rest := by
  induction h with
  | ended => exact Nat.zero_le _
  | lexical hc _ ih =>
    rw [hc, countInner_error, List.length_cons]
    exact Nat.succ_le_succ ih
  | @statement c c' t rest s results hc ht hgives _ ih =>
    obtain ⟨-, f, hf⟩ := hgives
    have hle : countInner c'.rest ≤ countInner rest :=
      (statement_takes hc (hf f (Nat.le_refl _))).sublist.countP_le
    rw [hc, countInner_token ht, List.length_cons]
    exact Nat.succ_le_succ (Nat.le_trans ih hle)
  | @refused c c' t rest r results hc ht hgives _ ih =>
    obtain ⟨-, f, hf⟩ := hgives
    obtain ⟨front, hfront, -, hcount⟩ := refused_takes hc ht (hf f (Nat.le_refl _))
    rw [hfront, countInner_append, List.length_append, List.length_cons, List.length_map]
    dsimp only at ih
    omega

theorem statements_lexical {n : Nat} {e : LexError} (hc : c.rest = .error e :: rest) :
    (statements f (n + 1) c).results = .error (.atTopLevel e) ::
      (statements f n { c with rest, constructs := [.topLevel] }).results := by
  rw [statements]
  simp only [hc]

/-- **A parse that is given enough fuel yields what there is to yield.** -/
theorem iterates_statements : ∀ (n : Nat) (c : Cursor), c.rest.length < n →
    3 * c.rest.length + 6 ≤ f → Iterates c (statements f n c).results
  | n + 1, c, hn, hf => by
    cases hc : c.rest with
    | nil =>
      rw [statements_nil hc]
      exact .ended (by rw [hc]; rfl)
    | cons l rest =>
      rw [hc, List.length_cons] at hn hf
      cases l with
      | error e =>
        rw [statements_lexical hc]
        exact .lexical hc (iterates_statements n { c with rest, constructs := [.topLevel] }
          (by dsimp only; omega) (by dsimp only; omega))
      | ok t =>
        by_cases ht : t.token = .endOfInput
        · rw [statements_end hc ht]
          exact .ended (by rw [hc]; exact Parser.isEnd_iff.mpr ht)
        have hanswers := Parser.declaration_answers f (rest.length + 1) hf
          { c with constructs := [.topLevel] } (by simp [hc])
        cases hr : Parser.declaration f { c with constructs := [.topLevel] } with
        | ok s c' =>
          have hle := (statement_takes hc hr).length_le
          rw [statements_ok hc ht hr]
          exact .statement hc ht (Parser.declaration_gives hr (by simp))
            (iterates_statements n c' (by omega) (by omega))
        | refused r c' =>
          obtain ⟨front, hfront, hne, -⟩ := refused_takes hc ht hr
          have hlength := congrArg List.length hfront
          rw [hc, List.length_cons, List.length_append] at hlength
          have hpos := List.length_pos_iff.mpr hne
          rw [statements_resumed hc ht hr]
          exact .refused hc ht (Parser.declaration_gives hr (by simp))
            (iterates_statements n { c' with
              rest := (recover c'.last c'.rest).rest, last := (recover c'.last c'.rest).last }
              (by dsimp only; omega) (by dsimp only; omega))
        | exhausted => exact absurd hr hanswers

end Parse

/-- **Parsing ends, and each step of it makes progress.** Whatever lexemes a stream yields, each
routine of the parser answers from any cursor on, with fuel in proportion to the lexemes left and
in the same way with any more; skipping takes a lexeme unless the input ends; statement after
statement, there is one sequence of results, which is that of the parse; and it is no longer than
the number of lexemes other than ends of input. -/
theorem parsing_ends (firstId : Nat) (items : List Lexeme) :
    (∀ (α : Type) (p : Nat → Parser α), Parser.Routine p → Parser.Settles p) ∧
    (∀ (last : Span) (ls : List Lexeme), endsAt ls 0 = false →
      (recover last ls).rest.length < ls.length) ∧
    (∀ results, Parse.Iterates { rest := items, nextId := firstId } results ↔
      results = (parseLexemes firstId items).results) ∧
    (parseLexemes firstId items).results.length ≤ countInner items := by
  have hfuel := le_parseFuel items.length
  have hparse : Parse.Iterates { rest := items, nextId := firstId }
      (parseLexemes firstId items).results :=
    Parse.iterates_statements _ _ (by dsimp only; omega) (by dsimp only; omega)
  refine ⟨fun α p h => h.settles, fun last ls h => recover_rest_length_lt last h, ?_, ?_⟩
  · intro results
    refine ⟨fun h => h.unique hparse, ?_⟩
    rintro rfl
    exact hparse
  · exact hparse.length_le

/-- A stream that is cut short behind an error, where the refusal takes nothing. -/
theorem parsing_ends_cut_short :
    ∃ items : List Lexeme, items =
        [.ok ⟨.symbol .closeParen, ⟨0, 1⟩, 1⟩, .error ⟨.unexpectedChar '@', ⟨2, 3⟩⟩] ∧
      Parser.Settles (fun f => Parser.upToBrace (Parser.declaration f) f []) ∧
      (recover (.point 0) items).rest.length < 2 ∧
      (∃ results, Parse.Iterates { rest := items } results ∧ results.length = 2) ∧
      countInner items = 2 ∧ (parseLexemes 0 items).results.length ≤ 2 := by
  refine ⟨_, rfl, ?_⟩
  obtain ⟨hsettles, hskips, hiterates, hlength⟩ := parsing_ends 0
    [.ok ⟨.symbol .closeParen, ⟨0, 1⟩, 1⟩, .error ⟨.unexpectedChar '@', ⟨2, 3⟩⟩]
  refine ⟨hsettles _ _ (.blockBody []), hskips (.point 0) _ rfl, ⟨_, (hiterates _).mpr rfl, ?_⟩, rfl,
    hlength⟩
  decide +kernel

end ClassScript
