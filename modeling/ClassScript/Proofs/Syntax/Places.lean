/-
# Where the errors of a parse stand

An error of a parse is a lexical error met between two statements or among lexemes that are
skipped, or it is what a declaration was refused with (`Iterates.origin`). No parser takes
the end of the input, so no error begins at a lexeme in front of it and runs up to it: each
error ends where such a lexeme does, or it is one that was met at the end, and stands there.

Key theorems: `Iterates.origin`, `parseLexemes_stands`.
-/
import ClassScript.Proofs.Syntax.Termination

namespace ClassScript

theorem InOrder.of_suffix {lo : Nat} {ls ls' : List Lexeme} (h : InOrder lo ls) (hls : ls' <:+ ls) :
    InOrder lo ls' := by
  obtain ⟨front, rfl⟩ := hls
  exact h.suffix

theorem InOrder.ordered {lo : Nat} {ls : List Lexeme} (h : InOrder lo ls) :
    ∀ {l : Lexeme}, l ∈ ls → l.span.start ≤ l.span.stop := by
  induction h with
  | nil => exact fun h => nomatch h
  | cons _ h2 _ _ ih =>
    intro l hl
    rcases List.mem_cons.mp hl with rfl | hl
    · exact h2
    · exact ih hl

namespace Parse

variable {lo : Nat} {c : Cursor} {results : List (Except SyntaxError Stmt)}

/-- What an error comes from: a lexical error ahead of a cursor, or a declaration that is begun in
front of a lexeme ahead of it and refused. -/
inductive Origin (c : Cursor) : SyntaxError → Prop
  | lexical {e : LexError} : .error e ∈ c.rest → Origin c (.atTopLevel e)
  | refusal {f : Nat} {c₁ c' : Cursor} {r : Refusal} : c₁.rest <:+ c.rest → c₁.rest ≠ [] →
      Parser.declaration f c₁ = .refused r c' → Origin c (r.error c')

theorem Origin.behind {c₁ : Cursor} {e : SyntaxError} (hc : c₁.rest <:+ c.rest)
    (h : Origin c₁ e) : Origin c e := by
  cases h with
  | lexical he => exact .lexical (hc.subset he)
  | refusal hsuffix hne hr => exact .refusal (hsuffix.trans hc) hne hr

/-- **What the errors of a parse come from.** Each one hands on a lexical error, or it is what a
declaration was refused with. -/
theorem Iterates.origin (h : Iterates c results) : ∀ e, .error e ∈ results → Origin c e := by
  induction h with
  | ended => simp
  | @lexical c e' rest results hc _ ih =>
    have hsuffix : rest <:+ c.rest := hc ▸ List.suffix_cons ..
    intro e he
    rcases List.mem_cons.mp he with he | he
    · cases he
      exact .lexical (by simp [hc])
    · exact (ih e he).behind hsuffix
  | @statement c c₁ t rest s results hc ht hgives _ ih =>
    obtain ⟨-, f, hf⟩ := hgives
    have hsuffix : c₁.rest <:+ c.rest :=
      (statement_takes hc (hf f (Nat.le_refl _))).trans (hc ▸ List.suffix_cons ..)
    intro e he
    rcases List.mem_cons.mp he with he | he
    · cases he
    · exact (ih e he).behind hsuffix
  | @refused c c₁ t rest r results hc ht hgives _ ih =>
    obtain ⟨-, f, hf⟩ := hgives
    have hr := hf f (Nat.le_refl _)
    have hforward := (Parser.built_declaration f).forward { c with constructs := [.topLevel] }
    rw [hr] at hforward
    have hleft : c₁.rest <:+ c.rest := hforward.rest
    obtain ⟨skipped, hskipped, herrors⟩ := recover_spec c₁.last c₁.rest
    intro e he
    rw [List.mem_append, List.mem_cons] at he
    rcases he with (he | he) | he
    · cases he
      have hstart : ({ c with constructs := [.topLevel] } : Cursor).rest <:+ c.rest :=
        List.suffix_refl c.rest
      exact .refusal hstart (by simp [hc]) hr
    · obtain ⟨e', he', heq⟩ := List.mem_map.mp he
      cases heq
      rw [herrors] at he'
      refine .lexical (hleft.subset ?_)
      rw [hskipped]
      exact List.mem_append_left _ (mem_lexicalErrors.mp he')
    · exact (ih e he).behind (List.IsSuffix.trans ⟨skipped, hskipped.symm⟩ hleft)

/-- What a declaration is refused with, wherever the tokens ahead end. -/
theorem refusal_orderly {f : Nat} (ends : Nat → Prop) {c' : Cursor} {r : Refusal}
    (ho : InOrder lo c.rest) (hc : c.rest ≠ [])
    (hstops : ∀ t, .ok t ∈ c.rest → t.token ≠ .endOfInput → ends t.span.stop)
    (h : Parser.declaration f c = .refused r c') : Parser.Refuses lo ends c r c' := by
  have horderly := Parser.orderly_declaration f lo ends c ⟨ho, fun hnil => absurd hnil hc, hstops⟩
    (by simp) (by simp)
  rw [h] at horderly
  exact horderly

/-- An error that hands on a lexical error hands on one that is ahead, and stands where that stands. -/
theorem Iterates.lexical_ahead (h : Iterates c results) (ho : InOrder lo c.rest) :
    ∀ e, .error e ∈ results → ∀ e', e.problem = .lexical e' →
      .error e' ∈ c.rest ∧ e.span = e'.span := by
  intro e he e' hp
  cases h.origin e he with
  | lexical he' =>
    cases hp
    exact ⟨he', rfl⟩
  | refusal hsuffix hne hr =>
    have hfront := ho.of_suffix hsuffix
    cases refusal_orderly (fun _ => True) hfront hne (by simp) hr with
    | lexical used hu =>
      cases hp
      exact ⟨hsuffix.subset (by simp [hu]), rfl⟩
    | other hnone => exact absurd hp (hnone e')

/-- The errors are the results that are none of the trees. -/
theorem mem_errors {p : Parse} {e : SyntaxError} (h : e ∈ p.errors) : .error e ∈ p.results := by
  obtain ⟨result, hresult, hsome⟩ := List.mem_filterMap.mp h
  cases result with
  | ok => cases hsome
  | error =>
    cases hsome
    exact hresult

end Parse

theorem parseLexemes_iterates (firstId : Nat) (ls : List Lexeme) :
    Parse.Iterates { rest := ls, nextId := firstId } (parseLexemes firstId ls).results := by
  have hfuel := le_parseFuel ls.length
  exact Parse.iterates_statements _ _ (by dsimp only; omega) (by dsimp only; omega)

theorem parseLexemes_origin (firstId : Nat) {ls : List Lexeme} : ∀ e ∈ (parseLexemes firstId ls).errors,
    Parse.Origin { rest := ls, nextId := firstId } e := fun e he =>
  (parseLexemes_iterates firstId ls).origin e (Parse.mem_errors he)

section Stands

variable {lo : Nat} {front : List Lexeme} {stop t : PlacedToken}

/-- An end of the input is the last of the lexemes. -/
theorem InOrder.end_not_mem (h : InOrder lo (front ++ [.ok stop])) (hmem : .ok t ∈ front) :
    t.token ≠ .endOfInput := by
  induction front generalizing lo with
  | nil => cases hmem
  | cons l front ih =>
    cases h with
    | cons _ _ hlast htail =>
      rcases List.mem_cons.mp hmem with rfl | hmem
      · intro ht
        simpa using hlast t rfl ht
      · exact ih htail hmem

theorem InOrder.mem_front (h : InOrder lo (front ++ [.ok stop]))
    (hmem : .ok t ∈ front ++ [.ok stop]) : t.token ≠ .endOfInput ∧ .ok t ∈ front ∨ t = stop := by
  rcases List.mem_append.mp hmem with hmem | hmem
  · exact .inl ⟨h.end_not_mem hmem, hmem⟩
  · exact .inr (Except.ok.inj (List.mem_singleton.mp hmem))

/-- A declaration that is refused at the end of the input has left that. -/
theorem Parser.EndsNext.eq_stop {c c' : Cursor} {s : Span} (h : EndsNext c' s)
    (htokens : TokensTo c c') (hsuffix : c.rest <:+ front ++ [.ok stop]) (hne : c.rest ≠ [])
    (ho : InOrder lo (front ++ [.ok stop])) (hend : stop.token = .endOfInput) : s = stop.span := by
  obtain ⟨t, hnext, ht, rfl⟩ := h
  obtain ⟨used, hused, hrest⟩ := htokens
  rcases hnext with ⟨hnil, -⟩ | ⟨rest, hcons⟩
  · -- the end of the input would have been taken
    obtain ⟨taken, htaken⟩ := hsuffix
    have hlast : c.rest.getLast? = some (.ok stop) := by
      have := congrArg List.getLast? htaken
      rwa [List.getLast?_append_of_ne_nil _ hne, List.getLast?_concat] at this
    rw [hrest, hnil, List.append_nil] at hlast
    obtain ⟨u, hu, heq⟩ := List.mem_map.mp (List.mem_of_getLast? hlast)
    cases heq
    exact absurd hend (hused stop hu)
  · have hmem : .ok t ∈ front ++ [.ok stop] := hsuffix.subset (by simp [hrest, hcons])
    rcases ho.mem_front hmem with ⟨hinner, -⟩ | rfl
    · exact absurd ht hinner
    · rfl

/-- The span ends where one of the lexemes does that stand in front of the end of the input, or it is
the place of that. -/
structure Span.Stands (front : List Lexeme) (stop : PlacedToken) (s : Span) : Prop where
  ordered : s.start ≤ s.stop
  place : (∃ l ∈ front, l.span.stop = s.stop) ∨ s = stop.span

theorem Span.Stands.of_lexeme {l : Lexeme} (ho : InOrder lo (front ++ [.ok stop]))
    (h : l ∈ front) : Span.Stands front stop l.span :=
  ⟨ho.ordered (List.mem_append_left _ h), .inl ⟨l, h, rfl⟩⟩

/-- What a declaration is refused with ends with a lexeme, or it stands at the end of the input. -/
theorem Parse.refusal_stands {f : Nat} {c c' : Cursor} {r : Refusal}
    (hsuffix : c.rest <:+ front ++ [.ok stop]) (hne : c.rest ≠ [])
    (ho : InOrder lo (front ++ [.ok stop])) (hend : stop.token = .endOfInput)
    (hr : Parser.declaration f c = .refused r c') : r.span.Stands front stop := by
  have hstops : ∀ t, .ok t ∈ c.rest → t.token ≠ .endOfInput →
      ∃ l ∈ front, l.span.stop = t.span.stop := by
    intro t hmem ht
    rcases ho.mem_front (hsuffix.subset hmem) with ⟨-, hmem⟩ | rfl
    · exact ⟨_, hmem, rfl⟩
    · exact absurd hend ht
  cases refusal_orderly (fun n => ∃ l ∈ front, l.span.stop = n) (ho.of_suffix hsuffix) hne hstops hr with
  | @lexical _ e used hu =>
    have hmem : .error e ∈ front ++ [.ok stop] := hsuffix.subset (by simp [hu])
    exact .of_lexeme ho (l := .error e) (by simpa using hmem)
  | other _ htokens hpassed hplace =>
    exact ⟨hpassed.ordered,
      hplace.imp_right fun hnext => hnext.eq_stop htokens hsuffix hne ho hend⟩

/-- **Each error of a parse ends where a lexeme in front of the end of the input does, or stands at
the end.** -/
theorem parseLexemes_stands (firstId : Nat) (ho : InOrder lo (front ++ [.ok stop]))
    (hend : stop.token = .endOfInput) :
    ∀ e ∈ (parseLexemes firstId (front ++ [.ok stop])).errors, e.span.Stands front stop := by
  intro e he
  cases parseLexemes_origin firstId e he with
  | @lexical e' he' => exact .of_lexeme ho (l := .error e') (by simpa using he')
  | refusal hsuffix hne hr => exact Parse.refusal_stands hsuffix hne ho hend hr

end Stands
end ClassScript
