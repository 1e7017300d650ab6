/-
# Parsing one text behind another

Two texts that are parsed without an error give, with a line end between them, a text that is
parsed without an error as well. Its statements are those of the first text and those of the
second one, with their spans moved, if the identities of the second go on from those of the
first.

Key theorems: `statements_along`, a text as the front of another one, and `parse_join`.
-/
import ClassScript.Proofs.Syntax.LexicalErrors
import ClassScript.Proofs.Syntax.Parallel
import ClassScript.Proofs.Token.Joining

namespace ClassScript

open CharStream

/-! ### Statement after statement -/

namespace Parse

variable {f f' n : Nat} {c c' : Cursor}

/-- The statements of a parse and of what follows it. -/
def andThen (trees : List Stmt) (p : Parse) : Parse := { p with results := trees.map .ok ++ p.results }

theorem errors_andThen (trees : List Stmt) (p : Parse) : (andThen trees p).errors = p.errors := by
  simp [andThen, errors, List.filterMap_map]

theorem trees_andThen (trees : List Stmt) (p : Parse) :
    (andThen trees p).trees = trees ++ p.trees := by
  simp [andThen, Parse.trees, List.filterMap_map]

theorem statements_stop {t : PlacedToken} {rest : List Lexeme} (hc : c.rest = .ok t :: rest)
    (ht : t.token = .endOfInput) : statements f n c = ⟨[], c.nextId⟩ := by
  cases n with
  | zero => rfl
  | succ n =>
    unfold statements
    simp only [hc, if_pos (Parser.isEnd_iff.mpr ht)]

theorem statements_first {t : PlacedToken} {rest : List Lexeme} {s : Stmt}
    (hc : c.rest = .ok t :: rest) (ht : t.token ≠ .endOfInput)
    (hs : Parser.declaration f { c with constructs := [.topLevel] } = .ok s c') :
    statements f (n + 1) c = andThen [s] (statements f n c') := by
  have hend : ¬ Parser.isEnd t = true := fun h => ht (Parser.isEnd_iff.mp h)
  rw [hc] at hs
  rw [statements]
  simp only [hc, if_neg hend, hs]
  rfl

/-- **A text is read as the front of another one.** Behind its statements, with their spans moved, the
other text goes on from where the first one ended. -/
theorem statements_along {k : Parser.Fork} (hf : f ≤ f') : ∀ {n n' : Nat} {c c' : Cursor},
    k.Abreast false c c' → c.rest.length ≤ n → c.rest.length ≤ n' → 3 * c.rest.length + 6 ≤ f →
    (statements f n c).errors = [] → ∃ n₁ c₁', n' < n₁ + c.rest.length ∧
      c₁'.rest = .ok k.other :: k.others ∧ c₁'.nextId = (statements f n c).nextId ∧
      statements f' n' c' =
        andThen ((statements f n c).trees.map (Stmt.mapSpans k.move)) (statements f' n₁ c₁')
  | 0, n', c, c', hc, hn, hn', hfuel, he => by
    obtain ⟨ts, -, hr, -⟩ := hc.rest
    simp [hr] at hn
  | n + 1, n', c, c', hc, hn, hn', hfuel, he => by
    by_cases hs : Parser.Spent c
    · obtain ⟨hr, hr'⟩ := hc.spent hs
      have hstop : statements f (n + 1) c = ⟨[], c.nextId⟩ := statements_stop hr k.ends
      rw [hstop, hr]
      exact ⟨n', c', by simp, hr', hc.nextId, rfl⟩
    · obtain ⟨t, line, rest, rest', hr, hr', ht, -⟩ := hc.front hs
      have hanswers := Parser.declaration_answers f c.rest.length hfuel
        { c with constructs := [.topLevel] } (Nat.le_refl _)
      cases hd : Parser.declaration f { c with constructs := [.topLevel] } with
      | exhausted => exact absurd hd hanswers
      | refused r c₁ => exact absurd he (statements_refused hr ht hd)
      | ok s c₁ =>
        have heats : c₁.rest.length < c.rest.length :=
          Parser.Eats.declaration f (c := { c with constructs := [.topLevel] }) hd
        have htop : k.Abreast false { c with constructs := [.topLevel] }
            { c' with constructs := [.topLevel] } := hc.inConstruct rfl
        obtain ⟨s', c₁', hd', rfl, hc₁⟩ := Parser.declaration_along hf htop hd (by simp)
        obtain ⟨n', rfl⟩ : ∃ m, n' = m + 1 := ⟨n' - 1, by omega⟩
        have hread := statements_first (n := n) hr ht hd
        have hread' := statements_first (n := n') hr' ht hd'
        rw [hread, errors_andThen] at he
        obtain ⟨n₁, c₂', hn₁, hrest, hid, heq⟩ := statements_along (n := n) hf hc₁.any
          (by omega) (by omega : c₁.rest.length ≤ n') (by omega) he
        refine ⟨n₁, c₂', by omega, hrest, by rw [hid, hread]; rfl, ?_⟩
        rw [hread', heq, hread, trees_andThen]
        rfl

/-- The constructs around a program are not looked at. -/
theorem statements_constructs (ks : List Construct) :
    statements f n { c with constructs := ks } = statements f n c := by
  cases n <;> rfl

/-- A text that is parsed without an error does not begin with `else`. -/
theorem statements_noElse {t : PlacedToken} {rest : List Lexeme} (hc : c.rest = .ok t :: rest)
    (hfuel : 3 * c.rest.length + 6 ≤ f) (he : (statements f (n + 1) c).errors = []) :
    t.token ≠ .symbol .elseWord := by
  by_cases ht : t.token = .endOfInput
  · simp [ht]
  have hanswers := Parser.declaration_answers f c.rest.length hfuel
    { c with constructs := [.topLevel] } (Nat.le_refl _)
  cases hd : Parser.declaration f { c with constructs := [.topLevel] } with
  | exhausted => exact absurd hd hanswers
  | refused r c₁ => exact absurd he (statements_refused hc ht hd)
  | ok s c₁ =>
    obtain ⟨w, q, hm, hs, -⟩ := Parser.declaration_reads f hd
    obtain ⟨u, w, rfl, hu⟩ := hs.begins
    obtain ⟨used, hused, hw⟩ := hm.rest
    obtain ⟨v, used, rfl, rfl, -⟩ := List.map_eq_cons_iff.mp hw
    obtain ⟨rfl, -⟩ : t = v ∧ _ := by simpa [hc] using hused
    exact hu.ne_else

end Parse

/-! ### Two texts -/

/-- A text that is parsed without an error has no lexical errors. -/
theorem lexemes_ok {s : CharStream} {firstId : Nat} (h : (s.parse firstId).errors = []) :
    ∀ x ∈ s.lexemes, ∃ t, x = .ok t := by
  have hfuel := le_parseFuel s.lexemes.length
  obtain ⟨hreports, -⟩ := Parse.statements_report (f := parseFuel s.lexemes.length)
    (s.lexemes.length + 1) { rest := s.lexemes, nextId := firstId }
    (Lexer.lexemes_inOrder _ _) (by dsimp only; omega) (by dsimp only; omega)
  have hlexical : lexicalErrors s.lexemes = [] := by
    rw [← hreports.lexical]
    exact congrArg (List.filterMap _) h
  intro x hx
  cases x with
  | ok t => exact ⟨t, rfl⟩
  | error e =>
    have hmem := mem_lexicalErrors.mpr hx
    rw [hlexical] at hmem
    cases hmem

theorem parseFuel_mono {m n : Nat} (h : m ≤ n) : parseFuel m ≤ parseFuel n := by
  unfold parseFuel
  have := Nat.div_le_div_right (c := stageLength) (Nat.mul_le_mul_left 8 (Nat.add_le_add_right h 2))
  exact Nat.mul_le_mul_left _ (Nat.add_le_add_right this 1)

section

variable {ts us : List PlacedToken} {e e' : PlacedToken} {k lines : Nat}

/-- The tokens of a first text and, moved, those of a second one. -/
theorem statements_join {f₁ f₂ f n₁ n₂ n firstId : Nat} {p q : Parse} (hf₁ : f₁ ≤ f) (hf₂ : f₂ ≤ f)
    (he : e.token = .endOfInput) (he' : e'.token = .endOfInput)
    (hts : ∀ t ∈ ts, t.token ≠ .endOfInput) (hus : ∀ t ∈ us, t.token ≠ .endOfInput)
    (hfuel₁ : 3 * (ts.length + 1) + 6 ≤ f₁) (hfuel₂ : 3 * (us.length + 1) + 6 ≤ f₂)
    (hn₁ : ts.length < n₁) (hn₂ : us.length < n₂) (hn : ts.length + us.length < n)
    (hp : Parse.statements f₁ n₁ { rest := ts.map .ok ++ [.ok e], nextId := firstId } = p)
    (hq : Parse.statements f₂ n₂ { rest := us.map .ok ++ [.ok e'], nextId := p.nextId } = q)
    (hpe : p.errors = []) (hqe : q.errors = []) :
    Parse.statements f n
        { rest := ts.map .ok ++ ((us ++ [e']).map (PlacedToken.move k lines)).map .ok
          nextId := firstId } =
      ⟨(p.trees ++ q.trees.map (Stmt.mapSpans (.shift k))).map .ok, q.nextId⟩ := by
  obtain ⟨o, os, ho⟩ : ∃ o os, us ++ [e'] = o :: os := List.exists_cons_of_ne_nil (by simp)
  have hnoElse : o.token ≠ .symbol .elseWord := by
    obtain ⟨n₂, rfl⟩ : ∃ m, n₂ = m + 1 := ⟨n₂ - 1, by omega⟩
    subst hq
    have hrest : us.map .ok ++ [.ok e'] = (.ok o :: os.map .ok : List Lexeme) := by
      simpa using congrArg (List.map (Except.ok : PlacedToken → Lexeme)) ho
    exact Parse.statements_noElse hrest (by simpa using hfuel₂) hqe
  let first : Parser.Fork :=
    { move := id, join := fun _ _ => rfl, stop := e, ends := he, other := o.move k lines,
      noElse := hnoElse, others := (os.map (PlacedToken.move k lines)).map .ok }
  let second : Parser.Fork :=
    { move := .shift k, join := Span.shift_join k, stop := e', ends := he', other := e'.move k lines,
      noElse := by simp [PlacedToken.move, he'], others := [] }
  have hfirst : first.Abreast false { rest := ts.map .ok ++ [.ok e], nextId := firstId }
      { rest := ts.map .ok ++ ((us ++ [e']).map (PlacedToken.move k lines)).map .ok
        nextId := firstId } := by
    refine ⟨⟨ts, ts, rfl, ?_, List.forall₂_same.mpr fun t _ => ⟨t.line, rfl⟩, hts⟩, by simp, rfl, rfl⟩
    rw [ho]
    rfl
  obtain ⟨m, d, hm, hrest, hid, heq⟩ := @Parse.statements_along _ _ _ hf₁ n₁ n _ _ hfirst
    (by simpa using Nat.succ_le_of_lt hn₁) (by simp; omega) (by simpa using hfuel₁) (by rw [hp, hpe])
  have hsecond : second.Abreast false { rest := us.map .ok ++ [.ok e'], nextId := p.nextId }
      { d with constructs := [.topLevel] } := by
    refine ⟨⟨us, us.map (PlacedToken.move k lines), rfl, ?_, ?_, hus⟩, by simp, rfl, by rw [hid, hp]⟩
    · have hall : (.ok first.other :: first.others : List Lexeme) =
          ((us ++ [e']).map (PlacedToken.move k lines)).map .ok := by
        rw [ho]
        rfl
      simp only [hrest, hall]
      simp [second]
    · rw [List.forall₂_map_right_iff, List.forall₂_same]
      exact fun t _ => ⟨t.line + lines, rfl⟩
  simp only [List.length_append, List.length_map, List.length_singleton] at hm
  obtain ⟨m', d', hm', hrest', hid', heq'⟩ := @Parse.statements_along _ _ _ hf₂ n₂ m _ _ hsecond
    (by simpa using Nat.succ_le_of_lt hn₂) (by simp; omega) (by simpa using hfuel₂) (by rw [hq, hqe])
  rw [Parse.statements_constructs, hq, Parse.statements_stop hrest' he'] at heq'
  rw [heq, heq', hp, hid', hq]
  have hid : p.trees.map (Stmt.mapSpans first.move) = p.trees :=
    List.map_congr_left (fun s _ => Stmt.mapSpans_id s) |>.trans (List.map_id _)
  rw [hid]
  simp [Parse.andThen, second]

end

/-- **Parsing one text behind another.** Two texts that are parsed without an error, the identities of
the second one going on from those of the first, are parsed without an error as one text. -/
theorem parse_join {cs ds : List Char} {firstId : Nat} {p q : Parse}
    (hp : (ofList cs).parse firstId = p) (hq : (ofList ds).parse p.nextId = q) (hpe : p.errors = [])
    (hqe : q.errors = []) : (ofList (cs ++ '\n' :: ds)).parse firstId =
      ⟨(p.trees ++ q.trees.map (Stmt.mapSpans (.shift (cs.length + 1)))).map .ok, q.nextId⟩ := by
  obtain ⟨ts, e, heq, he, hts, hjoin⟩ := lexemes_join ds (lexemes_ok (hp.symm ▸ hpe))
  obtain ⟨us, e', heq', he', hus, -⟩ := lexemes_join [] (lexemes_ok (hq.symm ▸ hqe))
  unfold CharStream.parse parseLexemes at hp hq ⊢
  rw [heq] at hp
  rw [heq'] at hq
  have hmoved : (ofList ds).lexemes.map (Lexeme.move (cs.length + 1) (lineEnds cs + 1)) =
      ((us ++ [e']).map (PlacedToken.move (cs.length + 1) (lineEnds cs + 1))).map .ok := by
    rw [heq']
    simp [Lexeme.move]
  rw [hjoin, hmoved]
  have hfuel : ∀ m, 3 * m + 6 ≤ parseFuel m := fun m => by
    have := le_parseFuel m
    omega
  refine statements_join (parseFuel_mono ?_) (parseFuel_mono ?_) he he' hts hus ?_ ?_ ?_ ?_ ?_ hp hq
    hpe hqe
  · simp
  · simp
  · simpa using hfuel (ts.length + 1)
  · simpa using hfuel (us.length + 1)
  · simp only [List.length_append, List.length_map, List.length_singleton]
    omega
  · simp only [List.length_append, List.length_map, List.length_singleton]
    omega
  · simp only [List.length_append, List.length_map, List.length_singleton]
    omega

end ClassScript
