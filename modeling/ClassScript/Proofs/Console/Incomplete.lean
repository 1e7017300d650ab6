/-
# Which inputs are incomplete

The interactive loop asks for more lines if nothing but blank characters stands behind some
error. That is meant to find the errors that were met at the end of the input, and it finds
all of them. But it takes for one any error that ends with the last lexeme as well, unless a
comment stands behind that. There are no others: each error ends with a lexeme or stands at
the end, no token ends with a blank character, and a lexical error is reported in its place.

Key theorems: `Text.length_trimEnd_le_iff`, `Tiles.error_behind`, and `isIncomplete_iff`.
-/
import ClassScript.Proofs.Console.Completable
import Mathlib.Data.List.DropRight

namespace ClassScript

open CharStream

/-! ### Blank ends -/

/-- The text without its blank end reaches no further than `n` if nothing but blank characters stands
there. -/
theorem Text.length_trimEnd_le_iff {s : String} {n : Nat} :
    (Text.trimEnd s).length ≤ n ↔ ∀ c ∈ s.toList.drop n, Text.isBlank c = true := by
  have hlength : (Text.trimEnd s).length = (s.toList.rdropWhile Text.isBlank).length := by
    simp [Text.trimEnd, Text.dropBlankEnd, List.rdropWhile]
  rw [hlength]
  induction s.toList using List.reverseRecOn with
  | nil => simp
  | append_singleton cs c ih =>
    by_cases hc : Text.isBlank c = true
    · rw [List.rdropWhile_concat_pos _ _ _ hc]
      refine ih.trans ⟨fun h d hd => ?_, fun h d hd => h d ?_⟩
      · rw [List.drop_append] at hd
        rcases List.mem_append.mp hd with hd | hd
        · exact h d hd
        · obtain rfl := List.mem_singleton.mp (List.mem_of_mem_drop hd)
          exact hc
      · rw [List.drop_append]
        exact List.mem_append_left _ hd
    · rw [List.rdropWhile_concat_neg _ _ _ hc]
      refine ⟨fun h d hd => ?_, fun h => ?_⟩
      · rw [List.drop_eq_nil_of_le h] at hd
        cases hd
      · by_contra hlt
        refine hc (h c ?_)
        rw [List.drop_append_of_le_length (by simp at hlt; omega)]
        simp

/-- The text ends with a character that is not blank. -/
def EndsUnblank (cs : List Char) : Prop := ∃ front c, cs = front ++ [c] ∧ Text.isBlank c = false

theorem EndsUnblank.of_forall {cs : List Char} (hne : cs ≠ [])
    (h : ∀ c ∈ cs, Text.isBlank c = false) : EndsUnblank cs := by
  obtain ⟨front, c, rfl⟩ := (List.eq_nil_or_concat' cs).resolve_left hne
  exact ⟨front, c, rfl, h c (by simp)⟩

theorem AllDigits.endsUnblank {cs : List Char} (h : AllDigits cs) : EndsUnblank cs :=
  .of_forall h.1 fun c hc =>
    Lexer.not_blank_of_nameChar (by simp [Lexer.isNameChar, Char.isAlphanum, h.2 c hc])

/-- No token ends with a blank character. -/
theorem Spelling.endsUnblank {cs : List Char} (h : Spelling cs) : EndsUnblank cs := by
  cases h with
  | symbol s =>
    have hall : s.text.toList.all (fun c => !Text.isBlank c) = true := by cases s <;> rfl
    refine .of_forall (by cases s <;> exact List.cons_ne_nil _ _) fun c hc => ?_
    simpa using List.all_eq_true.mp hall c hc
  | @name c cs hc hcs =>
    refine .of_forall (List.cons_ne_nil c cs) fun d hd => Lexer.not_blank_of_nameChar ?_
    rcases List.mem_cons.mp hd with rfl | hd
    · exact Lexer.isNameChar_of_start hc
    · exact hcs d hd
  | @text body hb => exact ⟨'"' :: body, '"', rfl, by decide⟩
  | number hn =>
    cases hn with
    | whole hd => exact hd.endsUnblank
    | @fraction ds fs hd hf =>
      obtain ⟨front, c, rfl, hc⟩ := hf.endsUnblank
      exact ⟨ds ++ '.' :: front, c, by simp, hc⟩

/-- Behind a place in front of the end of a token something stands that is not blank. -/
theorem Lexeme.Fits.unblank {cs : List Char} {t : PlacedToken} {n : Nat}
    (h : Lexeme.Fits cs (.ok t)) (hn : n < t.span.stop) (hstop : t.span.stop ≤ cs.length) :
    ∃ c ∈ cs.drop n, Text.isBlank c = false := by
  obtain ⟨-, -, hspelling, -⟩ := h
  obtain ⟨front, c, hunder, hc⟩ := hspelling.endsUnblank
  refine ⟨c, ?_, hc⟩
  -- the last character under the span
  have hlength := congrArg List.length hunder
  simp only [Span.under, Span.length, List.length_take, List.length_drop, List.length_append,
    List.length_singleton] at hlength
  have hplace : (t.span.under cs)[front.length]? = some c := by simp [hunder]
  rw [Span.under, List.getElem?_take_of_lt (by simp only [Span.length]; omega), List.getElem?_drop]
    at hplace
  refine List.mem_of_getElem? (i := t.span.start + front.length - n) ?_
  rw [List.getElem?_drop, ← hplace]
  congr 1
  omega

/-! ### The last lexeme -/

namespace Tiles

variable {cs : List Char} {i : Nat} {ls : List Lexeme}

theorem le_start (h : Tiles cs i ls) : ∀ l ∈ ls, i ≤ l.span.start := by
  induction h with
  | last hle => simpa [Lexeme.span, Span.point] using hle
  | lexeme h1 h2 _ _ _ _ ih =>
    intro l hl
    rcases List.mem_cons.mp hl with rfl | hl
    · exact h1
    · exact Nat.le_trans (Nat.le_trans h1 (Nat.le_of_lt h2)) (ih l hl)

/-- No lexeme begins before the one ahead of it ends. -/
theorem apart (h : Tiles cs i ls) : ls.Pairwise fun l l' => l.span.stop ≤ l'.span.start := by
  induction h with
  | last => exact List.pairwise_singleton ..
  | lexeme _ _ _ _ _ hrest ih => exact .cons hrest.le_start ih

/-- A lexeme in front of the end of the input: it takes a character at least, of the text. -/
structure Inner (cs : List Char) (l : Lexeme) : Prop where
  nonempty : l.span.start < l.span.stop
  within : l.span.stop ≤ cs.length
  fits : l.Fits cs

/-- The lexemes of a text are those in front of its end and the end. -/
theorem ends (h : Tiles cs i ls) : ∃ front stop, ls = front ++ [.ok stop] ∧
    stop.token = .endOfInput ∧ stop.span = .point cs.length ∧ ∀ l ∈ front, Inner cs l := by
  induction h with
  | last => exact ⟨[], _, rfl, rfl, rfl, by simp⟩
  | lexeme _ h2 h3 _ h5 _ ih =>
    obtain ⟨front, stop, rfl, hend, hspan, hinner⟩ := ih
    exact ⟨_ :: front, stop, rfl, hend, hspan, List.forall_mem_cons.mpr ⟨⟨h2, h3, h5⟩, hinner⟩⟩

/-- **A lexeme that stands among the blank characters at the end of a text is an error.** -/
theorem error_behind {front : List Lexeme} {l x : Lexeme} {rest : List Lexeme}
    (h : Tiles cs i (front ++ l :: rest)) (hl : Inner cs l) (hx : x ∈ front)
    (hblank : ∀ c ∈ cs.drop x.span.stop, Text.isBlank c = true) :
    x.span.stop ≤ l.span.stop ∧ ∃ e, l = .error e := by
  have hbefore : x.span.stop ≤ l.span.start :=
    (List.pairwise_append.mp h.apart).2.2 x hx l List.mem_cons_self
  have hlt : x.span.stop < l.span.stop := Nat.lt_of_le_of_lt hbefore hl.nonempty
  refine ⟨Nat.le_of_lt hlt, ?_⟩
  cases l with
  | error e => exact ⟨e, rfl⟩
  | ok t =>
    obtain ⟨c, hc, hunblank⟩ := hl.fits.unblank hlt hl.within
    rw [hblank c hc] at hunblank
    cases hunblank

end Tiles

/-! ### Incomplete inputs -/

namespace Repl

variable {s : String} {i : Nat} {e : SyntaxError}

/-- The error was raised on meeting the end of the input: it begins where the input ends, or it is a
text constant that never ends. -/
def RaisedAtEnd (s : String) (e : SyntaxError) : Prop :=
  s.length ≤ e.span.start ∨ ∃ span, e.problem = .lexical ⟨.unterminatedText, span⟩

/-- The error ends with the last lexeme in front of the end of the input, and behind that stands
nothing but blank characters. -/
def OnLast (s : String) (e : SyntaxError) : Prop :=
  (∃ front l stop, (CharStream.ofString s).lexemes = front ++ [l, .ok stop] ∧
    e.span.stop = l.span.stop) ∧ ∀ c ∈ s.toList.drop e.span.stop, Text.isBlank c = true

/-- An input is incomplete if an error has nothing but blank characters behind it. -/
theorem isIncomplete_iff_blank : isIncomplete s = true ↔
    ∃ e ∈ ((CharStream.ofString s).parse i).errors,
      ∀ c ∈ s.toList.drop e.span.stop, Text.isBlank c = true := by
  rw [CharStream.parse_errors _ i 0]
  unfold isIncomplete
  simp only [List.any_eq_true, decide_eq_true_eq, Text.length_trimEnd_le_iff]

/-- The lexemes of a text, and where the errors of its parse stand among them. -/
theorem errors_stand (s : String) (i : Nat) : ∃ front stop,
    (CharStream.ofString s).lexemes = front ++ [.ok stop] ∧ stop.span = .point s.length ∧
      (∀ l ∈ front, Tiles.Inner s.toList l) ∧
      ∀ e ∈ ((CharStream.ofString s).parse i).errors, e.span.Stands front stop := by
  obtain ⟨front, stop, hls, hend, hspan, hinner⟩ := (lexemes_tile s.toList).ends
  have horder : InOrder 0 (ofList s.toList).lexemes := Lexer.lexemes_inOrder _ ⟨_, 0, 1⟩
  rw [hls] at horder
  have hstands := parseLexemes_stands i horder hend
  rw [← hls] at hstands
  rw [String.length_toList] at hspan
  exact ⟨front, stop, hls, hspan, hinner, hstands⟩

/-- An error that was raised at the end reaches it. -/
theorem RaisedAtEnd.reaches (h : RaisedAtEnd s e)
    (he : e ∈ ((CharStream.ofString s).parse i).errors) : s.length ≤ e.span.stop := by
  rcases h with h | ⟨span, hproblem⟩
  · obtain ⟨_, _, _, _, _, hstands⟩ := errors_stand s i
    exact Nat.le_trans h (hstands e he).ordered
  · have hiterates := parseLexemes_iterates i (CharStream.ofString s).lexemes
    obtain ⟨hmem, hspan⟩ := hiterates.lexical_ahead (Lexer.lexemes_inOrder _ _) e
      (Parse.mem_errors he) _ hproblem
    obtain ⟨e', heq, hstop⟩ := (lexemes_tile s.toList).unterminated _ hmem rfl
    cases heq
    rw [hspan, hstop, String.length_toList]

/-- Where nothing but blank characters stands behind the end of an error, and that is the end of a
lexeme in front of the end of the input, some error ends with the last one of these. -/
theorem exists_onLast {front : List Lexeme} {stop : PlacedToken} {x : Lexeme}
    (he : e ∈ ((CharStream.ofString s).parse i).errors)
    (hls : (CharStream.ofString s).lexemes = front ++ [.ok stop])
    (hinner : ∀ l ∈ front, Tiles.Inner s.toList l) (hx : x ∈ front)
    (hstop : x.span.stop = e.span.stop)
    (hblank : ∀ c ∈ s.toList.drop e.span.stop, Text.isBlank c = true) :
    ∃ e ∈ ((CharStream.ofString s).parse i).errors, OnLast s e := by
  obtain ⟨front, l, rfl⟩ := (List.eq_nil_or_concat' front).resolve_left (List.ne_nil_of_mem hx)
  have hlast : (CharStream.ofString s).lexemes = front ++ [l, .ok stop] := by
    rw [hls, List.append_assoc]
    rfl
  rcases List.mem_append.mp hx with hx | hx
  · -- the last lexeme is a lexical error, and that is reported too
    have htiles : Tiles s.toList 0 (front ++ [l, .ok stop]) := hlast ▸ lexemes_tile s.toList
    rw [← hstop] at hblank
    obtain ⟨hle, e', rfl⟩ := htiles.error_behind (hinner l (by simp)) hx hblank
    have hmem : .error e' ∈ (CharStream.ofString s).lexemes := by simp [hlast]
    obtain ⟨e₁, he₁, hspan₁⟩ := CharStream.lexical_reported i hmem
    have hsame : e₁.span.stop = (Lexeme.span (.error e')).stop := congrArg Span.stop hspan₁
    refine ⟨e₁, he₁, ⟨front, _, stop, hlast, hsame⟩, fun c hc => hblank c ?_⟩
    rw [hsame] at hc
    exact List.drop_subset_drop_left _ hle hc
  · obtain rfl := List.mem_singleton.mp hx
    exact ⟨e, he, ⟨front, x, stop, hlast, hstop.symm⟩, hblank⟩

/-- **An input is incomplete if and only if an error in it was raised at its end, or ends with its last
lexeme** and no comment stands behind that. -/
theorem isIncomplete_iff (s : String) (i : Nat) : isIncomplete s = true ↔
    ∃ e ∈ ((CharStream.ofString s).parse i).errors, RaisedAtEnd s e ∨ OnLast s e := by
  rw [isIncomplete_iff_blank]
  constructor
  · rintro ⟨e, he, hblank⟩
    obtain ⟨front, stop, hls, hspan, hinner, hstands⟩ := errors_stand s i
    rcases (hstands e he).place with ⟨x, hx, hstop⟩ | hplace
    · obtain ⟨e₁, he₁, hlast⟩ := exists_onLast he hls hinner hx hstop hblank
      exact ⟨e₁, he₁, .inr hlast⟩
    · refine ⟨e, he, .inl (.inl ?_)⟩
      rw [hplace, hspan]
      exact Nat.le_refl _
  · rintro ⟨e, he, hend | hlast⟩
    · refine ⟨e, he, fun c hc => ?_⟩
      have hreaches := hend.reaches he
      rw [← String.length_toList] at hreaches
      rw [List.drop_eq_nil_of_le hreaches] at hc
      cases hc
    · exact ⟨e, he, hlast.2⟩

/-- **A stray closing parenthesis makes an input incomplete,** though its one error was not raised at
the end. -/
theorem isIncomplete_stray_paren : isIncomplete ")\n" = true ∧
    ((CharStream.ofString ")\n").parse 0).errors = [⟨.expectedExpression, .expr, ⟨0, 1⟩⟩] ∧
    ¬ ∃ e ∈ ((CharStream.ofString ")\n").parse 0).errors, RaisedAtEnd ")\n" e := by
  have herrors : ((CharStream.ofString ")\n").parse 0).errors =
      [⟨.expectedExpression, .expr, ⟨0, 1⟩⟩] := by
    decide +kernel
  refine ⟨by decide +kernel, herrors, ?_⟩
  rintro ⟨e, he, hend⟩
  rw [herrors, List.mem_singleton] at he
  subst he
  rcases hend with hend | ⟨span, hproblem⟩
  · exact absurd hend (by decide)
  · cases hproblem

end Repl
end ClassScript
