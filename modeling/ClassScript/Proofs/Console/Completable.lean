/-
# An input that can be completed is read on

The interactive loop asks for more lines if an error stands at the end of the input. The input
ends with a line end, so no token of it goes on in the next line: what follows leaves its lexemes
as they are, but for a text constant that has not ended, which is an error up to the end of the
input. If the lexemes are tokens, then the input is the front of a longer stream, and a parser
that has no error there has one at the end of the input or none at all.

Key theorems: `lexemes_cut`, and `incomplete_of_completable`.
-/
import ClassScript.Console.Repl
import ClassScript.Proofs.Syntax.Later
import ClassScript.Proofs.Syntax.Places
import ClassScript.Proofs.Syntax.Viable

namespace ClassScript

open CharStream

/-! ### Lexing up to a line end -/

namespace Lexer

variable {l : Lexer} {s : CharStream} {x : Lexeme} {next : Lexer}

/-- A run that goes to the end goes on over a character that it may take. -/
theorem run_to_end {p : Char → Bool} {c : Char} (hc : p c = true) :
    ∀ {s : CharStream}, (run p s).2 = [] → (run p (s ++ [.ok c])).2 = []
  | [], _ => by rw [List.nil_append, run_ok hc]; rfl
  | .error failure :: s, h => by simp [run, yields] at h
  | .ok d :: s, h => by
    cases hd : p d with
    | false =>
      rw [run_stop hd] at h
      cases h
    | true =>
      rw [run_ok hd] at h
      rw [List.cons_append, run_ok hd]
      exact run_to_end hc h

theorem text_unterminated (h : (run (· ≠ '"') s).2 = []) :
    ∃ x next, l.text s = .more x next ∧ x.unterminated = true := by
  unfold text
  generalize run (· ≠ '"') s = r at h
  obtain ⟨body, rest⟩ := r
  obtain rfl : rest = [] := h
  exact ⟨_, _, rfl, rfl⟩

/-- Only a quote begins a text constant, and one that never ends has no other quote. -/
theorem lexemeAt_unterminated {c : Char} (h : l.lexemeAt c s = .more x next)
    (hx : x.unterminated = true) : c = '"' ∧ (run (· ≠ '"') s).2 = [] := by
  have hscan := lexemeAt_scans l c s
  have hquote : c = '"' := by
    rw [h] at hscan
    generalize hstep : Step.more x next = step at hscan
    cases hscan with
    | ended | failed => cases hstep
    | token | unexpected => cases hstep; cases hx
    | unterminated hs => exact Except.ok.inj (List.cons.inj hs).1
  subst hquote
  refine ⟨rfl, ?_⟩
  change l.text s = _ at h
  unfold text at h
  generalize run (· ≠ '"') s = r at h
  obtain ⟨body, rest⟩ := r
  cases rest with
  | nil => rfl
  | cons y rest =>
    cases y with
    | error failure => cases h
    | ok d => cases h; cases hx

/-- **A text constant that never ends does not end behind a line end.** -/
theorem step_unterminated (h : l.step = .more x next) (hx : x.unterminated = true) :
    ∃ x' next', (l.extend []).step = .more x' next' ∧ x'.unterminated = true := by
  have hskip : (l.extend []).step = ((skip false l.index l.line l.rest).extend []).stepHere := by
    rw [← skip_extend _ _ _ _ (skip_rest_ne_nil h)]
    rfl
  rw [hskip]
  rw [step_eq] at h
  generalize skip false l.index l.line l.rest = here at h
  obtain ⟨rest, index, line⟩ := here
  match rest with
  | [] => cases h
  | .error failure :: rest => cases h
  | .ok c :: rest =>
    have hfront : c = '/' → ∀ failure s, rest ≠ .error failure :: s := by
      rintro rfl failure s rfl
      cases h
    rw [stepHere_char hfront] at h
    obtain ⟨rfl, hrun⟩ := lexemeAt_unterminated h hx
    obtain ⟨x', next', htext, hx'⟩ := text_unterminated (l := ⟨.ok '"' :: rest ++ [.ok '\n'], index, line⟩)
      (run_to_end (c := '\n') (by decide) hrun)
    refine ⟨x', next', ?_, hx'⟩
    rw [← htext]
    exact stepHere_char (by simp)

/-- **An error of a text stays one** if a line end and more text follow, or it is a text constant
that has not ended at the line end. -/
theorem lexemes_error_from : ∀ (n : Nat) (before after : List Char), after.length < n →
    (∃ e, .error e ∈ lexemes n (between before after)) →
    (∀ (ds : List Char) (m : Nat), after.length + ds.length + 1 < m →
      ∃ e, .error e ∈ lexemes m (between before (after ++ '\n' :: ds))) ∨
    ∀ m, after.length + 1 < m →
      ∃ x ∈ lexemes m (between before (after ++ ['\n'])), x.unterminated = true
  | n + 1, before, after, hn, ⟨e, he⟩ => by
    have hfound := step_found before after
    cases hstep : (between before after).step with
    | last x =>
      rw [hstep] at hfound
      rw [lexemes_last hstep, List.mem_singleton] at he
      generalize hy : Step.last x = step at hfound
      cases hfound with
      | ended =>
        cases hy
        cases he
      | lexeme => cases hy
    | more x next =>
      by_cases hx : x.unterminated = true
      · right
        obtain ⟨x', next', hstep', hx'⟩ := step_unterminated hstep hx
        rw [← ofList_nil, between_extend] at hstep'
        intro m hm
        obtain ⟨m, rfl⟩ : ∃ i, m = i + 1 := ⟨m - 1, by omega⟩
        rw [lexemes_more hstep']
        exact ⟨x', List.mem_cons_self, hx'⟩
      rw [Bool.not_eq_true] at hx
      obtain ⟨taken, rest, rfl, hne, rfl⟩ := step_shorter hstep
      have hpos := List.length_pos_iff.mpr hne
      have hlonger : ∀ ds, (between before (taken ++ rest ++ '\n' :: ds)).step =
          .more x (between (before ++ taken) (rest ++ '\n' :: ds)) := by
        intro ds
        rw [← between_extend, ← between_extend]
        exact step_extend hstep hx
      rw [List.length_append] at hn
      rw [lexemes_more hstep, List.mem_cons] at he
      rcases he with rfl | he
      · left
        intro ds m hm
        obtain ⟨m, rfl⟩ : ∃ i, m = i + 1 := ⟨m - 1, by omega⟩
        rw [lexemes_more (hlonger ds)]
        exact ⟨e, List.mem_cons_self⟩
      -- the error is a later one
      rcases lexemes_error_from n (before ++ taken) rest (by omega) ⟨e, he⟩ with hkept | hopen
      · left
        intro ds m hm
        rw [List.length_append] at hm
        obtain ⟨m, rfl⟩ : ∃ i, m = i + 1 := ⟨m - 1, by omega⟩
        obtain ⟨e', he'⟩ := hkept ds m (by omega)
        rw [lexemes_more (hlonger ds)]
        exact ⟨e', List.mem_cons_of_mem _ he'⟩
      · right
        intro m hm
        rw [List.length_append] at hm
        obtain ⟨m, rfl⟩ : ∃ i, m = i + 1 := ⟨m - 1, by omega⟩
        obtain ⟨x', hmem, hx'⟩ := hopen m (by omega)
        rw [lexemes_more (hlonger [])]
        exact ⟨x', List.mem_cons_of_mem _ hmem, hx'⟩

end Lexer

/-- A text constant that never ends is an error up to the end of the text. -/
theorem Tiles.unterminated {cs : List Char} {i : Nat} {ls : List Lexeme} (h : Tiles cs i ls) :
    ∀ x ∈ ls, x.unterminated = true → ∃ e, x = .error e ∧ e.span.stop = cs.length := by
  induction h with
  | last =>
    intro x hx hopen
    rw [List.mem_singleton] at hx
    subst hx
    cases hopen
  | @lexeme i l ls _ _ _ _ hfits _ ih =>
    intro x hx hopen
    rcases List.mem_cons.mp hx with rfl | hx
    · match x with
      | .error ⟨.unterminatedText, span⟩ => exact ⟨_, rfl, hfits.2.2⟩
    · exact ih x hx hopen

theorem lexemes_ne_nil (cs : List Char) : (ofList cs).lexemes ≠ [] := by
  unfold CharStream.lexemes Lexer.lexemes
  split <;> simp

/-- **The lexemes of a text up to a line end and of one that goes on there.** They are the same tokens
up to the end of the first text, or there is an error in the second one, or one in the first that
stands at its end. -/
theorem lexemes_cut (cs ds : List Char) :
    (∃ (k : Parser.Cut) (ts : List PlacedToken), k.stop.span = .point (cs.length + 1) ∧ k.more ≠ [] ∧
      (ofList (cs ++ ['\n'])).lexemes = ts.map .ok ++ [.ok k.stop] ∧
      (ofList (cs ++ '\n' :: ds)).lexemes = ts.map .ok ++ k.more) ∨
    (∃ e, .error e ∈ (ofList (cs ++ '\n' :: ds)).lexemes) ∨
    ∃ e, .error e ∈ (ofList (cs ++ ['\n'])).lexemes ∧ e.span.stop = cs.length + 1 := by
  by_cases hok : ∀ x ∈ (ofList cs).lexemes, ∃ t, x = .ok t
  · left
    obtain ⟨ts, e, heq, -, -, hlong⟩ := lexemes_join ds hok
    obtain ⟨us, e', heq', -, -, hshort⟩ := lexemes_join [] hok
    obtain ⟨hmap, -⟩ := List.append_inj' (heq.symm.trans heq') rfl
    obtain rfl : ts = us := List.map_injective_iff.mpr (fun _ _ => Except.ok.inj) hmap
    let stop := PlacedToken.move (cs.length + 1) (lineEnds cs + 1) ⟨.endOfInput, .point 0, 1⟩
    refine ⟨⟨stop, rfl, rfl, _⟩, ts, ?_, ?_, hshort, hlong⟩
    · simp [stop, PlacedToken.move, Span.shift, Span.point]
    · rw [ne_eq, List.map_eq_nil_iff]
      exact lexemes_ne_nil ds
  · right
    have herror : ∃ e, .error e ∈ Lexer.lexemes (cs.length + 1) (.between [] cs) := by
      rw [← lexemes_eq_between]
      by_contra hnone
      refine hok fun x hx => ?_
      cases x with
      | ok t => exact ⟨t, rfl⟩
      | error e => exact absurd ⟨e, hx⟩ hnone
    rcases Lexer.lexemes_error_from _ [] cs (Nat.lt_succ_self _) herror with hkept | hopen
    · left
      rw [lexemes_eq_between]
      exact hkept ds _ (by simp)
    · right
      have htiles := Lexer.lexemes_tile_from _ [] (cs ++ ['\n']) (Nat.lt_succ_self _)
      obtain ⟨x, hmem, hx⟩ := hopen ((cs ++ ['\n']).length + 1) (by simp)
      obtain ⟨e, rfl, hstop⟩ := htiles.unterminated x hmem hx
      rw [lexemes_eq_between]
      exact ⟨e, hmem, by simpa using hstop⟩

/-! ### Errors at the end of an input -/

namespace Parse

theorem errors_of_ok {p : Parse} {stmts : List Stmt} (h : p.program = .ok stmts) :
    p.errors = [] := by
  unfold program at h
  split at h
  next he => exact List.isEmpty_iff.mp he
  next => cases h

theorem errors_of_error {p : Parse} {es : List SyntaxError} (h : p.program = .error es) :
    p.errors ≠ [] := by
  unfold program at h
  split at h
  next => cases h
  next he => exact fun hnil => he (List.isEmpty_iff.mpr hnil)

end Parse

/-- **A lexical error is reported in its place.** -/
theorem CharStream.lexical_reported {s : CharStream} {e : LexError} (firstId : Nat)
    (h : .error e ∈ s.lexemes) : ∃ e' ∈ (s.parse firstId).errors, e'.span = e.span := by
  have hfuel := le_parseFuel s.lexemes.length
  have horder : InOrder 0 s.lexemes := Lexer.lexemes_inOrder _ ⟨s, 0, 1⟩
  obtain ⟨hreports, -⟩ := Parse.statements_report (f := parseFuel s.lexemes.length)
    (s.lexemes.length + 1) { rest := s.lexemes, nextId := firstId } horder
    (by dsimp only; omega) (by dsimp only; omega)
  have hmem := mem_lexicalErrors.mpr h
  rw [← hreports.lexical, List.mem_filterMap] at hmem
  obtain ⟨e', he', hlexical⟩ := hmem
  have hproblem : e'.problem = .lexical e := by
    unfold SyntaxProblem.lexical? at hlexical
    split at hlexical
    next hp => rw [hp, Option.some.inj hlexical]
    next => cases hlexical
  have hahead := (parseLexemes_iterates firstId s.lexemes).lexical_ahead horder e'
    (Parse.mem_errors he') e hproblem
  exact ⟨e', he', hahead.2⟩

/-- The errors of a text do not depend on the identities. -/
theorem CharStream.parse_errors (s : CharStream) (i j : Nat) :
    (s.parse i).errors = (s.parse j).errors := by
  rw [← Nat.zero_add i, ← Nat.zero_add j, parse_later, parse_later, Parse.errors_later,
    Parse.errors_later]

theorem Text.length_trimEnd_le (s : String) : (Text.trimEnd s).length ≤ s.length := by
  have hle := (List.dropWhile_suffix Text.isBlank (l := s.toList.reverse)).length_le
  rw [List.length_reverse, String.length_toList] at hle
  simpa [Text.trimEnd, Text.dropBlankEnd] using hle

namespace Repl

variable {s t : String} {i j : Nat} {es : List SyntaxError} {stmts : List Stmt}

/-- An error that reaches the end of an input makes it incomplete. -/
theorem isIncomplete_of_error {e : SyntaxError} (he : e ∈ ((CharStream.ofString s).parse i).errors)
    (hstop : s.length ≤ e.span.stop) : isIncomplete s = true := by
  rw [CharStream.parse_errors _ i 0] at he
  refine List.any_eq_true.mpr ⟨e, he, decide_eq_true ?_⟩
  exact Nat.le_trans (Text.length_trimEnd_le s) hstop

/-- **An input that can be completed is not cut off.** If a text that ends with a line end is no
program, but some text behind it makes it one, then it is incomplete, whatever identities the
expressions of either text begin with. -/
theorem incomplete_of_completable (hline : ∃ line, s = line ++ "\n")
    (hrejected : ((CharStream.ofString s).parse i).program = .error es)
    (haccepted : ((CharStream.ofString (s ++ t)).parse j).program = .ok stmts) :
    isIncomplete s = true := by
  obtain ⟨line, rfl⟩ := hline
  have hshort : CharStream.ofString (line ++ "\n") = ofList (line.toList ++ ['\n']) := by
    simp [CharStream.ofString]
  have hlong : CharStream.ofString (line ++ "\n" ++ t) = ofList (line.toList ++ '\n' :: t.toList) := by
    simp [CharStream.ofString]
  have hlength : (line ++ "\n").length = line.toList.length + 1 := by
    rw [String.length_append, String.length_toList]
    rfl
  have haccepted' : ((ofList (line.toList ++ '\n' :: t.toList)).parse i).errors = [] := by
    rw [← hlong, CharStream.parse_errors _ i j]
    exact Parse.errors_of_ok haccepted
  rcases lexemes_cut line.toList t.toList with ⟨k, ts, hspan, hmore, hts, hus⟩ | ⟨e, he⟩ | ⟨e, he, hstop⟩
  · rw [CharStream.parse, hus] at haccepted'
    have hcut := parseLexemes_cut hmore haccepted'
    rw [← hts] at hcut
    change (CharStream.parse i _).errors = [] ∨ ∃ e ∈ (CharStream.parse i _).errors, _ at hcut
    rw [← hshort] at hcut
    rcases hcut with hnone | ⟨e, he, hstop⟩
    · exact absurd hnone (Parse.errors_of_error hrejected)
    · refine isIncomplete_of_error he ?_
      rw [hstop, hspan, hlength]
      exact Nat.le_refl _
  · obtain ⟨e', he', -⟩ := CharStream.lexical_reported i he
    rw [haccepted'] at he'
    cases he'
  · obtain ⟨e', he', hspan⟩ := CharStream.lexical_reported i he
    rw [← hshort] at he'
    refine isIncomplete_of_error he' ?_
    rw [hspan, hstop, hlength]

/-- An open parenthesis in front of a comment. -/
theorem incomplete_of_completable_open_paren :
    ((CharStream.ofString "print (nil // then\n").parse 0).program =
        .error [⟨.expectedSymbol .closeParen, .group, ⟨19, 19⟩⟩] ∧
      (∃ stmts, ((CharStream.ofString ("print (nil // then\n" ++ ");")).parse 7).program = .ok stmts) ∧
      isIncomplete "print (nil // then\n" = true := by
  have herrors : ((CharStream.ofString "print (nil // then\n").parse 0).errors =
      [⟨.expectedSymbol .closeParen, .group, ⟨19, 19⟩⟩] := by
    decide +kernel
  have hnone : ((CharStream.ofString ("print (nil // then\n" ++ ");")).parse 7).errors = [] := by
    decide +kernel
  have hrejected : ((CharStream.ofString "print (nil // then\n").parse 0).program =
      .error [⟨.expectedSymbol .closeParen, .group, ⟨19, 19⟩⟩] := by
    rw [Parse.program, herrors]
    rfl
  have haccepted : ((CharStream.ofString ("print (nil // then\n" ++ ");")).parse 7).program =
      .ok ((CharStream.ofString ("print (nil // then\n" ++ ");")).parse 7).trees := by
    rw [Parse.program, hnone]
    rfl
  exact ⟨hrejected, ⟨_, haccepted⟩, incomplete_of_completable ⟨"print (nil // then", rfl⟩ hrejected
    haccepted⟩

end Repl
end ClassScript
