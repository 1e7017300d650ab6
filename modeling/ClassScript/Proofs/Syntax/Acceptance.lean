/-
# The parser accepts the grammar

Lexemes that are all tokens are parsed without an error if and only if those in front of
the end of the input are a program of the grammar, and the statements are then the trees
of its one derivation.

Key theorem: `program_iff_derived`, from `statements_sound` and `statements_complete`, each
by induction on the number of statements that may still be read.
-/
import ClassScript.Proofs.Syntax.Unambiguity

namespace ClassScript
namespace Grammar

variable {w : List Token}

/-! ### No derivation has an end of input in it -/

theorem mem_commaSeparated {t : Token} : ∀ {ws : List (List Token)}, t ∈ commaSeparated ws →
    t = .symbol .comma ∨ ∃ w ∈ ws, t ∈ w
  | [w], h => .inr ⟨w, by simp, h⟩
  | w :: v :: ws, h => by
    rw [commaSeparated, List.mem_append, List.mem_cons] at h
    rcases h with h | h | h
    · exact .inr ⟨w, by simp, h⟩
    · exact .inl h
    · rcases mem_commaSeparated h with h | ⟨u, hu, h⟩
      · exact .inl h
      · exact .inr ⟨u, List.mem_cons_of_mem _ hu, h⟩

/-- The tokens that are read as part of something. -/
def Inner (w : List Token) : Prop := ∀ t ∈ w, t ≠ .endOfInput

namespace Inner

variable {u : List Token}

theorem nil : Inner [] := by simp [Inner]

theorem cons {t : Token} (ht : t ≠ .endOfInput) (h : Inner w) : Inner (t :: w) := by
  intro t' h'
  rcases List.mem_cons.mp h' with rfl | h'
  · exact ht
  · exact h t' h'

theorem symbol (s : Symbol) (h : Inner w) : Inner (.symbol s :: w) := h.cons (by simp)

theorem name (x : String) (h : Inner w) : Inner (.name x :: w) := h.cons (by simp)

theorem append (hu : Inner u) (h : Inner w) : Inner (u ++ w) := by
  intro t ht
  rcases List.mem_append.mp ht with ht | ht
  · exact hu t ht
  · exact h t ht

theorem flatten {ws : List (List Token)} (h : ∀ w ∈ ws, Inner w) : Inner ws.flatten := by
  intro t ht
  obtain ⟨w, hw, ht⟩ := List.mem_flatten.mp ht
  exact h w hw t ht

theorem commas {ws : List (List Token)} (h : ∀ w ∈ ws, Inner w) : Inner (commaSeparated ws) := by
  intro t ht
  rcases mem_commaSeparated ht with rfl | ⟨w, hw, ht⟩
  · simp
  · exact h w hw t ht

end Inner

theorem Expression.inner {r : Rank} {e : Expr} (h : Expression r w e) : Inner w := by
  induction h with
  | assign x _ ih => exact (ih.symbol _).name x
  | set x _ _ ihu ihw => exact ihu.append (((ihw.symbol _).name x).symbol _)
  | ofOr _ ih | ofAnd _ ih | ofOperand _ ih | lift _ ih | ofUnary _ ih | ofCall _ ih
  | ofPrimary _ ih => exact ih
  | or _ _ ihl ihr | and _ _ ihl ihr | binary _ _ _ _ ihl ihr => exact ihl.append (ihr.symbol _)
  | unary op _ ih => exact ih.symbol _
  | call args _ _ _ ihu ih =>
    refine ihu.append (.symbol _ (.append (.commas ?_) (.symbol _ .nil)))
    exact fun w hw => by
      obtain ⟨a, ha, rfl⟩ := List.mem_map.mp hw
      exact ih a ha
  | get x _ ih => exact ih.append (.symbol _ (.name x .nil))
  | constant h => exact .cons (by cases h <;> simp) .nil
  | name x => exact .name x .nil
  | this => exact .symbol _ .nil
  | super x => exact .symbol _ (.symbol _ (.name x .nil))
  | group _ ih => exact .symbol _ (ih.append (.symbol _ .nil))

theorem Optional.inner {o : Option Expr} (h : Optional (Expression .assignment) w o) : Inner w := by
  cases h with
  | none => exact .nil
  | some h => exact h.inner

theorem Sentence.inner {k : Category} {p : Phrase} (h : Sentence k w p) : Inner w := by
  induction h with
  | classDecl x parent methods _ ih =>
    refine .symbol _ (.name x (.append ?_ (.symbol _ (.append (.flatten ?_) (.symbol _ .nil)))))
    · cases parent with
      | none => exact .nil
      | some y => exact .symbol _ (.name y .nil)
    · intro w hw
      obtain ⟨m, hm, rfl⟩ := List.mem_map.mp hw
      exact ih m hm
  | funDecl _ ih => exact ih.symbol _
  | ofVarDecl _ ih | ofStatement _ ih | ofExprStmt _ ih | initVar _ ih | initExpr _ ih => exact ih
  | function x params body _ _ ih =>
    refine .name x (.symbol _ (.append (.commas ?_) (.symbol _ (.symbol _ (.append (.flatten ?_)
      (.symbol _ .nil))))))
    · intro w hw
      obtain ⟨y, -, rfl⟩ := List.mem_map.mp hw
      exact .name y .nil
    · intro w hw
      obtain ⟨d, hd, rfl⟩ := List.mem_map.mp hw
      exact ih d hd
  | var x h =>
    refine .symbol _ (.name x (.append ?_ (.symbol _ .nil)))
    cases h with
    | none => exact .nil
    | some h => exact h.inner.symbol _
  | expression h => exact h.inner.append (.symbol _ .nil)
  | print h => exact .symbol _ (h.inner.append (.symbol _ .nil))
  | «return» h => exact .symbol _ (h.inner.append (.symbol _ .nil))
  | block body _ ih =>
    refine .symbol _ (.append (.flatten ?_) (.symbol _ .nil))
    intro w hw
    obtain ⟨d, hd, rfl⟩ := List.mem_map.mp hw
    exact ih d hd
  | branch h _ ih | loop h _ ih =>
    exact .symbol _ (.symbol _ (h.inner.append (.symbol _ ih)))
  | branchElse h _ _ _ ihy ihn =>
    exact .symbol _ (.symbol _ (h.inner.append (.symbol _ (ihy.append (.symbol _ ihn)))))
  | forBare ho hi _ ih =>
    exact .symbol _ (.symbol _ (.symbol _ (ho.inner.append (.symbol _ (hi.inner.append
      (.symbol _ ih))))))
  | forInit _ ho hi _ ihi ih =>
    exact .symbol _ (.symbol _ (ihi.append (ho.inner.append (.symbol _ (hi.inner.append
      (.symbol _ ih))))))

end Grammar

/-! ### Statement after statement -/

open Grammar

/-- Whether a token is not the end of the input. -/
def Token.inner : Token → Bool
  | .endOfInput => false
  | _ => true

/-- The tokens in front of the end of the input. -/
def beforeEnd (ts : List PlacedToken) : List Token := (ts.map (·.token)).takeWhile Token.inner

theorem Token.inner_iff {t : Token} : t.inner = true ↔ t ≠ .endOfInput := by
  cases t <;> simp [Token.inner]

theorem beforeEnd_append {ts us : List PlacedToken} (h : Inner (ts.map (·.token))) :
    beforeEnd (ts ++ us) = ts.map (·.token) ++ beforeEnd us := by
  unfold beforeEnd
  rw [List.map_append, List.takeWhile_append_of_pos]
  exact fun t ht => Token.inner_iff.mpr (h t ht)

theorem beforeEnd_cons {t : PlacedToken} {ts : List PlacedToken} (h : t.token ≠ .endOfInput) :
    beforeEnd (t :: ts) = t.token :: beforeEnd ts := by
  unfold beforeEnd
  rw [List.map_cons, List.takeWhile_cons_of_pos (Token.inner_iff.mpr h)]

theorem beforeEnd_end {t : PlacedToken} {ts : List PlacedToken} (h : t.token = .endOfInput) :
    beforeEnd (t :: ts) = [] := by
  unfold beforeEnd
  rw [List.map_cons, List.takeWhile_cons_of_neg (by simp [h, Token.inner])]

theorem beforeEnd_append_rest (ts : List PlacedToken) :
    ∃ x, ts.map (·.token) = beforeEnd ts ++ x ∧ x.headD .endOfInput = .endOfInput := by
  refine ⟨(ts.map (·.token)).dropWhile Token.inner, List.takeWhile_append_dropWhile.symm, ?_⟩
  cases hx : (ts.map (·.token)).dropWhile Token.inner with
  | nil => rfl
  | cons t x =>
    have := List.head?_dropWhile_not Token.inner (ts.map (·.token))
    rw [hx] at this
    rw [List.headD_cons]
    by_contra hne
    simp [Token.inner_iff.mpr hne] at this

/-- What is left behind a declaration that reads tokens are tokens. -/
theorem Parser.Moves.rest_tokens {c c' : Cursor} {w : List Token} {ids : List Nat}
    {ts : List PlacedToken} (hm : Parser.Moves c w ids c') (hc : c.rest = ts.map .ok) :
    ∃ used ts', ts = used ++ ts' ∧ used.map (·.token) = w ∧ c'.rest = ts'.map .ok := by
  obtain ⟨used, hu, hw⟩ := hm.rest
  rw [hc] at hu
  obtain ⟨as, bs, hab, has, hbs⟩ := List.map_eq_append_iff.mp hu
  obtain rfl : as = used := List.map_injective_iff.mpr (fun _ _ => Except.ok.inj) has
  exact ⟨as, bs, hab, hw, hbs.symm⟩

namespace Parse

section Steps

variable {f n : Nat} {c c' : Cursor} {t : PlacedToken} {rest : List Lexeme}

theorem statements_nil (hc : c.rest = []) : (statements f (n + 1) c).results = [] := by
  unfold statements
  simp only [hc]

theorem statements_end (hc : c.rest = .ok t :: rest) (ht : t.token = .endOfInput) :
    (statements f (n + 1) c).results = [] := by
  unfold statements
  simp only [hc, if_pos (Parser.isEnd_iff.mpr ht)]

theorem statements_ok {s : Stmt} (hc : c.rest = .ok t :: rest) (ht : t.token ≠ .endOfInput)
    (hs : Parser.declaration f { c with constructs := [.topLevel] } = .ok s c') :
    (statements f (n + 1) c).results = .ok s :: (statements f n c').results := by
  have hend : ¬ Parser.isEnd t = true := by
    rw [Parser.isEnd_iff]
    exact ht
  rw [hc] at hs
  rw [statements]
  simp only [hc, if_neg hend, hs]

theorem statements_refused {r : Refusal} (hc : c.rest = .ok t :: rest)
    (ht : t.token ≠ .endOfInput)
    (hs : Parser.declaration f { c with constructs := [.topLevel] } = .refused r c') :
    (statements f (n + 1) c).errors ≠ [] := by
  have hend : ¬ Parser.isEnd t = true := by
    rw [Parser.isEnd_iff]
    exact ht
  rw [hc] at hs
  rw [statements]
  simp only [hc, if_neg hend, hs]
  simp [errors]

end Steps

/-- **Statements that are read without an error are a program.** -/
theorem statements_sound {f : Nat} : ∀ (n : Nat) (c : Cursor) (ts : List PlacedToken),
    c.rest = ts.map .ok → ts.length < n → 3 * ts.length + 6 ≤ f →
    (statements f n c).errors = [] →
    ∃ ps, Program (beforeEnd ts) ps ∧ (statements f n c).trees.map Stmt.bare = ps.map Phrase.stmt
  | 0, _, _, _, hn, _, _ => absurd hn (Nat.not_lt_zero _)
  | n + 1, c, [], hc, _, _, _ => ⟨[], .nil, by rw [trees, statements_nil hc]; rfl⟩
  | n + 1, c, t :: ts, hc, hn, hf, he => by
    by_cases ht : t.token = .endOfInput
    · exact ⟨[], beforeEnd_end ht ▸ .nil, by rw [trees, statements_end hc ht]; rfl⟩
    have hd := Parser.declaration_answers f (t :: ts).length hf
      { c with constructs := [.topLevel] } (by simp [hc])
    cases hr : Parser.declaration f { c with constructs := [.topLevel] } with
    | ok s c' =>
      obtain ⟨w, q, hm, hs, hq, -⟩ := Parser.declaration_reads f hr
      obtain ⟨used, ts', hts, rfl, hc'⟩ := hm.rest_tokens hc
      have hpos := List.length_pos_iff.mpr hs.ne_nil
      have hlen := congrArg List.length hts
      simp only [List.length_cons, List.length_append, List.length_map] at hlen hpos hn hf
      have hresults := statements_ok (n := n) hc ht hr
      rw [errors, hresults] at he
      obtain ⟨ps, hps, htrees⟩ := statements_sound n c' ts' hc' (by omega) (by omega) he
      refine ⟨q :: ps, ?_, ?_⟩
      · rw [hts, beforeEnd_append hs.inner]
        exact .cons hs hps
      · rw [trees] at htrees
        rw [trees, hresults]
        simpa [hq] using htrees
    | refused r c' => exact absurd he (statements_refused hc ht hr)
    | exhausted => exact absurd hr hd

/-- **A program is read without an error.** -/
theorem statements_complete {f : Nat} : ∀ (n : Nat) (c : Cursor) (ts : List PlacedToken)
    (ps : List Phrase), c.rest = ts.map .ok → ts.length < n → 3 * ts.length + 6 ≤ f →
    Program (beforeEnd ts) ps → (statements f n c).errors = []
  | 0, _, _, _, _, hn, _, _ => absurd hn (Nat.not_lt_zero _)
  | n + 1, c, [], _, hc, _, _, _ => by rw [errors, statements_nil hc]; rfl
  | n + 1, c, t :: ts, ps, hc, hn, hf, hp => by
    by_cases ht : t.token = .endOfInput
    · rw [errors, statements_end hc ht]
      rfl
    have hd := Parser.declaration_answers f (t :: ts).length hf
      { c with constructs := [.topLevel] } (by simp [hc])
    -- the tokens are those of the first declaration, those of the others and what is left
    obtain ⟨x, hx, hend⟩ := beforeEnd_append_rest (t :: ts)
    generalize hw : beforeEnd (t :: ts) = w at hp hx
    cases hp with
    | nil =>
      rw [beforeEnd_cons ht] at hw
      cases hw
    | @cons u v q qs hq hqs =>
      have hfaces : Parser.Faces { c with constructs := [.topLevel] } (u ++ (v ++ x)) :=
        ⟨t :: ts, hc, by rw [hx, List.append_assoc]⟩
      have helse : NoElse (v ++ x) := by
        cases hqs with
        | nil => simp only [NoElse, List.nil_append, hend, ne_eq, reduceCtorEq, not_false_eq_true]
        | cons hq' =>
          obtain ⟨t', u', rfl, ht'⟩ := hq'.begins
          exact ht'.ne_else
      have hmeets := Parser.Sentence.completes hq (f := f) (fun _ => helse) hfaces
      cases hr : Parser.declaration f { c with constructs := [.topLevel] } with
      | ok s c' =>
        rw [hr] at hmeets
        obtain ⟨ts', hc', hts'⟩ := hmeets.2
        have hbefore : beforeEnd ts' = v := by
          unfold beforeEnd at hw ⊢
          rw [hx, List.append_assoc, List.takeWhile_append_of_pos
            fun t ht => Token.inner_iff.mpr (hq.inner t ht)] at hw
          rw [hts']
          exact List.append_cancel_left hw
        have hpos := List.length_pos_iff.mpr hq.ne_nil
        have hlen := congrArg List.length hx
        have hlen' := congrArg List.length hts'
        simp only [List.length_cons, List.length_append, List.length_map] at hlen hlen' hpos hn hf
        rw [errors, statements_ok hc ht hr]
        exact statements_complete n c' ts' qs hc' (by omega) (by omega) (hbefore ▸ hqs)
      | refused r c' =>
        rw [hr] at hmeets
        exact hmeets.elim
      | exhausted => exact absurd hr hd

end Parse

/-- **The parser accepts the programs of the grammar and no others.** Tokens are parsed without an
error if and only if those in front of the end of the input are derived as a program, and then the
statements are the trees of that derivation, which is the only one. -/
theorem program_iff_derived (firstId : Nat) (ts : List PlacedToken) :
    ((∃ stmts, (parseLexemes firstId (ts.map .ok)).program = .ok stmts) ↔
      ∃ ps, Program (beforeEnd ts) ps) ∧
    ∀ stmts, (parseLexemes firstId (ts.map .ok)).program = .ok stmts →
      ∃ ps, Program (beforeEnd ts) ps ∧ (∀ qs, Program (beforeEnd ts) qs → qs = ps) ∧
        stmts.map Stmt.bare = ps.map Phrase.stmt := by
  have hfuel : 3 * ts.length + 6 ≤ parseFuel (ts.map (.ok : PlacedToken → Lexeme)).length := by
    have := le_parseFuel (ts.map (.ok : PlacedToken → Lexeme)).length
    rw [List.length_map] at this ⊢
    omega
  have hn : ts.length < (ts.map (.ok : PlacedToken → Lexeme)).length + 1 := by
    rw [List.length_map]
    omega
  have hsound : ∀ stmts, (parseLexemes firstId (ts.map .ok)).program = .ok stmts →
      ∃ ps, Program (beforeEnd ts) ps ∧ stmts.map Stmt.bare = ps.map Phrase.stmt := by
    intro stmts h
    unfold Parse.program at h
    split at h
    next he =>
      obtain ⟨ps, hps, htrees⟩ := Parse.statements_sound _ _ ts rfl hn hfuel (List.isEmpty_iff.mp he)
      cases h
      exact ⟨ps, hps, htrees⟩
    next => cases h
  refine ⟨⟨?_, ?_⟩, ?_⟩
  · rintro ⟨stmts, h⟩
    obtain ⟨ps, hps, -⟩ := hsound stmts h
    exact ⟨ps, hps⟩
  · rintro ⟨ps, hps⟩
    have he := Parse.statements_complete _
      { rest := ts.map .ok, nextId := firstId } ts ps rfl hn hfuel hps
    exact ⟨_, if_pos (List.isEmpty_iff.mpr he)⟩
  · intro stmts h
    obtain ⟨ps, hps, hstmts⟩ := hsound stmts h
    exact ⟨ps, hps, fun qs hqs => hps.unique hqs, hstmts⟩

/-- A call is an expression without an operator. -/
theorem Grammar.Expression.of_call {e : Expr} (h : Expression .call w e) :
    Expression .assignment w e :=
  .ofOr (.ofAnd (.ofOperand (.lift (.lift (.lift (.lift (.ofUnary (.ofCall h))))))))

/-- `if (a) b.c = nil; else for (var i = a; i < b; i = i - a) print i;` -/
def elseForTokens : List Token :=
  [.symbol .ifWord, .symbol .openParen, .name "a", .symbol .closeParen,
    .name "b", .symbol .dot, .name "c", .symbol .equal, .symbol .nilWord, .symbol .semicolon,
    .symbol .elseWord, .symbol .forWord, .symbol .openParen,
    .symbol .varWord, .name "i", .symbol .equal, .name "a", .symbol .semicolon,
    .name "i", .symbol .less, .name "b", .symbol .semicolon,
    .name "i", .symbol .equal, .name "i", .symbol .minus, .name "a", .symbol .closeParen,
    .symbol .printWord, .name "i", .symbol .semicolon]

def elseForPhrase : Phrase :=
  .branchElse (.variable .blank "a")
    (.expression (.set .blank (.variable .blank "b") "c" (.literal .blank .nil)))
    (.forLoop (some (.var "i" (some (.variable .blank "a"))))
      (some (.binary .blank .less (.variable .blank "i") (.variable .blank "b")))
      (some (.assign .blank "i"
        (.binary .blank .sub (.variable .blank "i") (.variable .blank "a"))))
      (.print (.variable .blank "i")))

theorem elseForTokens_derived : Program elseForTokens [elseForPhrase] := by
  have name : ∀ x, Expression .call [.name x] (.variable .blank x) := fun x => .ofPrimary (.name x)
  have operand : ∀ x, Expression (.operand 0) [.name x] (.variable .blank x) :=
    fun x => .ofUnary (.ofCall (name x))
  have yes : Sentence .statement _ (.expression _) := .ofExprStmt
    (.expression (.set "c" (name "b") (.of_call (.ofPrimary (.constant .nil)))))
  have init : Sentence .forInit _ (.var "i" _) := .initVar (.var "i" (.some (.of_call (name "a"))))
  have test : Expression .assignment _ _ := .ofOr (.ofAnd (.ofOperand (.lift
    (.binary .less rfl (.lift (.lift (.lift (operand "i")))) (.lift (.lift (operand "b")))))))
  have step : Expression .assignment _ _ := .assign "i" (.ofOr (.ofAnd (.ofOperand (.lift (.lift
    (.binary .sub rfl (.lift (.lift (operand "i"))) (.lift (operand "a"))))))))
  have body : Sentence .statement _ _ := .print (.of_call (name "i"))
  exact .cons (.ofStatement (.branchElse (.of_call (name "a")) yes rfl
    (.forInit init (.some test) (.some step) body))) .nil

/-- The `for` becomes a block with the loop in it. -/
theorem program_iff_derived_else_for :
    let ts : List PlacedToken := elseForTokens.map (⟨·, .blank, 1⟩)
    (∀ qs, Program (beforeEnd ts) qs → qs = [elseForPhrase]) ∧
    ∃ stmts, (parseLexemes 0 (ts.map .ok)).program = .ok stmts ∧ stmts.map Stmt.bare =
      [.branch .blank (.variable .blank "a")
        (.expression .blank (.set .blank (.variable .blank "b") "c" (.literal .blank .nil)))
        (some (.block .blank
          [.var .blank "i" (some (.variable .blank "a")),
            .loop .blank (.binary .blank .less (.variable .blank "i") (.variable .blank "b"))
              (.block .blank
                [.print .blank (.variable .blank "i"),
                  .expression .blank (.assign .blank "i"
                    (.binary .blank .sub (.variable .blank "i") (.variable .blank "a")))])]))] := by
  intro ts
  have herrors : (parseLexemes 0 (ts.map .ok)).errors = [] := by decide +kernel
  have hok : (parseLexemes 0 (ts.map .ok)).program =
      .ok (parseLexemes 0 (ts.map .ok)).trees := by
    rw [Parse.program, herrors]
    rfl
  obtain ⟨ps, -, hunique, htrees⟩ := (program_iff_derived 0 ts).2 _ hok
  obtain rfl := hunique _ elseForTokens_derived
  exact ⟨hunique, _, hok, htrees⟩

end ClassScript
