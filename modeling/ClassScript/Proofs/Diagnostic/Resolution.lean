/-
# Spans are resolved exactly

The excerpt of a span tells where the span lies: the number of its first line, the columns at which
it begins and stops, and the lines that it touches. A span that reaches beyond the text is cut off at
its end; that aside, all of it can be said by indices of the text alone (`Resolves`). The lexer counts
lines on its own, as it goes. At every lexeme it has counted the line that the excerpt of the lexeme
shows (`placed_line`).

Key theorem: `spans_resolved`.
-/
import Mathlib.Order.Bounds.Defs
import ClassScript.Proofs.Diagnostic.Carets
import ClassScript.Proofs.Token.Joining

namespace ClassScript

open CharStream

/-! ### The line that the lexer has counted -/

/-- The lexeme that a step yields. -/
def Lexer.Step.lexeme : Step → Lexeme
  | .more x _ | .last x => x

/-- The lexemes from a place on, at most `n` of them, each with the place where it begins. -/
def Lexer.placed : Nat → Lexer → List (Lexer × Lexeme)
  | 0, _ => []
  | n + 1, l =>
    (skip false l.index l.line l.rest, l.step.lexeme) ::
      match l.step with
      | .last _ => []
      | .more _ next => placed n next

/-- The lexemes of a stream, each with the place where the lexer begins it. -/
def CharStream.placed (s : CharStream) : List (Lexer × Lexeme) := Lexer.placed (s.length + 1) ⟨s, 0, 1⟩

namespace Lexer

variable {before after : List Char}

theorem map_placed : ∀ (n : Nat) (l : Lexer), (placed n l).map Prod.snd = lexemes n l
  | 0, _ => rfl
  | n + 1, l => by
    unfold placed lexemes
    cases l.step with
    | last x => rfl
    | more x next => exact congrArg (x :: ·) (map_placed n next)

/-- Skipping a gap of a text leads to a place of the text. -/
theorem skip_between (before after : List Char) : ∃ gap ahead, after = gap ++ ahead ∧
    skip false before.length (1 + lineEnds before) (ofList after) = between (before ++ gap) ahead := by
  obtain ⟨gap, rest, -, hs, hskip, -⟩ :=
    skip_spec (ofList after) false before.length (1 + lineEnds before)
  obtain ⟨ahead, rfl, hafter⟩ := ofList_eq_append gap hs
  refine ⟨gap, ahead, hafter, ?_⟩
  rw [hskip, foldl_lineAfter, between]
  simp [lineEnds, Nat.add_assoc]

/-- What is scanned begins where the lexer is, and a token has the line that the lexer has counted. -/
theorem Scans.place {l : Lexer} {cs : List Char} {step : Step} (h : Scans l (ofList cs) step) :
    step.lexeme.span.start = l.index ∧ ∀ t, step.lexeme = .ok t → t.line = l.line := by
  cases h with
  | ended | token =>
    refine ⟨rfl, fun t ht => ?_⟩
    cases ht
    rfl
  | unexpected | unterminated =>
    refine ⟨rfl, fun t ht => ?_⟩
    cases ht
  | failed hf => exact absurd hf error_not_mem_ofList

/-- One lexeme begins behind the line feeds that the lexer has counted. -/
theorem step_place (before after : List Char) :
    let here := skip false before.length (1 + lineEnds before) (ofList after)
    let x := (between before after).step.lexeme
    x.span.start ≤ (before ++ after).length ∧
      here.line = 1 + lineEnds ((before ++ after).take x.span.start) ∧
      ∀ t, x = .ok t → t.line = here.line := by
  intro here x
  obtain ⟨gap, ahead, rfl, hskip⟩ := skip_between before after
  have hhere : here = between (before ++ gap) ahead := hskip
  have hscan : Scans here here.rest _ := (between before (gap ++ ahead)).step_scans
  rw [hhere] at hscan ⊢
  obtain ⟨hstart, hline⟩ := hscan.place
  have hindex : x.span.start = (before ++ gap).length := hstart
  rw [← List.append_assoc, hindex, List.take_left]
  refine ⟨?_, rfl, hline⟩
  simp only [List.length_append]
  omega

/-- **At every lexeme of a text the lexer has counted the line feeds in front of it.** -/
theorem placed_line : ∀ (n : Nat) (before after : List Char),
    ∀ p ∈ placed n (between before after), p.2.span.start ≤ (before ++ after).length ∧
      p.1.line = 1 + lineEnds ((before ++ after).take p.2.span.start) ∧
      ∀ t, p.2 = .ok t → t.line = p.1.line
  | 0, _, _, p, hp => by simp [placed] at hp
  | n + 1, before, after, p, hp => by
    rw [placed, List.mem_cons] at hp
    rcases hp with rfl | hp
    · exact step_place before after
    · cases hstep : (between before after).step with
      | last x => simp [hstep] at hp
      | more x next =>
        simp only [hstep] at hp
        obtain ⟨taken, more, rfl, -, rfl⟩ := step_shorter hstep
        have hnext := placed_line n (before ++ taken) more p hp
        rwa [List.append_assoc] at hnext

end Lexer

namespace Diagnostic

variable {text : List Char} {span : Span} {a : Nat}

/-! ### The lines that a span touches -/

/-- The line that begins at index `a`, without its line end: a line feed, or a carriage return and a
line feed. -/
def shownFrom (text : List Char) (a : Nat) : List Char :=
  if '\n' ∈ text.drop a then dropReturn (lineFrom text a) else lineFrom text a

/-- So many lines from one on are shown one after the other. -/
theorem take_shownLines : ∀ {n a : Nat}, begins text a = true → a ≤ text.length →
    lineIndex text a + n ≤ lineIndex text text.length + 1 →
    (shownLines (text.drop a)).take n = (startsFrom text n a).map (shownFrom text)
  | 0, _, _, _, _ => rfl
  | n + 1, a, hb, ha, hn => by
    by_cases hfeed : '\n' ∈ text.drop a
    · have hshown : shownLines (text.drop a) = dropReturn (lineFrom text a) ::
          shownLines (text.drop (a + (lineFrom text a).length + 1)) := by
        conv_lhs => rw [drop_line hfeed]
        exact shownLines_append lineFrom_free _
      obtain ⟨hle, hbegins, hindex⟩ := begins_next hfeed
      rw [hshown, List.take_succ_cons, take_shownLines hbegins hle (by omega), startsFrom,
        List.map_cons, shownFrom, if_pos hfeed]
    · -- the last line of the text is the last one that is asked for
      obtain rfl : n = 0 := by
        have hadd := lineIndex_add text a (text.length - a)
        rw [Nat.add_sub_cancel' ha,
          List.count_eq_zero.mpr fun hmem => hfeed (List.mem_of_mem_take hmem)] at hadd
        omega
      rw [shownLines_line hfeed, drop_lastLine hfeed, startsFrom, List.map_cons, shownFrom,
        if_neg hfeed]
      rfl

/-- What an excerpt says of a span, by indices of the text. -/
structure Resolves (text : List Char) (span : Span) (e : Excerpt) : Prop where
  /-- The number of the line counts the line feeds in front of the span. -/
  line : e.line = 1 + (text.take span.start).count '\n'
  /-- The column counts from the last place in front of the span where a line begins. -/
  start : ∃ a, IsGreatest {a | a ≤ span.start ∧ begins text a = true} a ∧ e.start = span.start - a
  stop : e.stop = e.start + (span.stop - span.start)
  /-- The lines are those from the one that holds the first character of the span to the one that
  holds the last. -/
  lines : e.lines = (touched text span).map (shownFrom text)

/-- A line begins nowhere between the beginning of the line of an index and that index. -/
theorem isGreatest_begins {i : Nat} (hi : i ≤ text.length) :
    IsGreatest {a | a ≤ i ∧ begins text a = true} (i - column text i) := by
  obtain ⟨-, hbegins, hindex⟩ := begins_column hi
  refine ⟨⟨Nat.sub_le .., hbegins⟩, ?_⟩
  rintro a ⟨hle, hb⟩
  have hmono : lineIndex text a ≤ lineIndex text i := lineIndex_mono hle
  exact (le_iff_lineIndex hb).mpr (by omega)

/-- The excerpt of a span that lies in the text. -/
theorem resolves_of (h : span.start ≤ span.stop) (h' : span.stop ≤ text.length) :
    Resolves text span (Excerpt.of text span) := by
  have hin : span.start ≤ text.length := Nat.le_trans h h'
  obtain ⟨hcolumn, hbegins, hindex⟩ := begins_column hin
  have hcount := lineCount_le h h'
  rw [of_eq h h']
  refine ⟨Nat.add_comm .., ⟨_, isGreatest_begins hin, ?_⟩, rfl, ?_⟩
  · dsimp only
    omega
  · rw [touched_eq h h', ← take_shownLines hbegins (by omega) (by omega),
      ← shownLines_drop (by omega) hbegins, hindex]

/-- A span that reaches beyond the text has the excerpt of its part in the text. -/
theorem of_cut (text : List Char) (span : Span) :
    Excerpt.of text span =
      Excerpt.of text ⟨min span.start text.length, min span.stop text.length⟩ := by
  simp only [Excerpt.of, find?_ofText, Option.getD_some, Nat.min_assoc, Nat.min_self]

/-- **Spans are resolved exactly.** Every look-up succeeds: no index lies outside of the table of
lines, and no difference is negative. The excerpt says of the span, cut off at the end of the text,
what the indices of the text say. The lexer, which counts lines as it goes, agrees at every lexeme. -/
theorem spans_resolved (text : List Char) :
    (∀ span : Span, span.start ≤ span.stop →
      Excerpt.find? (.ofText text) span = some (Excerpt.of text span) ∧
        Resolves text ⟨min span.start text.length, min span.stop text.length⟩
          (Excerpt.of text span)) ∧
    (ofList text).placed.map Prod.snd = (ofList text).lexemes ∧
    ∀ p ∈ (ofList text).placed, (Excerpt.of text p.2.span).line = p.1.line ∧
      ∀ t, p.2 = .ok t → t.line = p.1.line := by
  refine ⟨fun span h => ⟨?_, ?_⟩, Lexer.map_placed _ _, fun p hp => ?_⟩
  · rw [Excerpt.of, find?_ofText]
    rfl
  · rw [of_cut]
    refine resolves_of ?_ ?_
    · dsimp only
      omega
    · exact Nat.min_le_right ..
  · obtain ⟨hin, hline, htoken⟩ := Lexer.placed_line _ [] text p
      (by simpa [CharStream.placed, Lexer.between, lineEnds] using hp)
    have hstart : min p.2.span.start text.length = p.2.span.start := Nat.min_eq_left hin
    refine ⟨?_, htoken⟩
    rw [Excerpt.of, find?_ofText, Option.getD_some, hline, hstart]
    exact Nat.add_comm ..

/-- A span that reaches beyond a text of two lines, and an error on the second one. -/
theorem spans_resolved_stray_char :
    let text := "a\r\n@".toList
    let span : Span := ⟨1, 40⟩
    let p : Lexer × Lexeme := (⟨[.ok '@'], 3, 2⟩, .error ⟨.unexpectedChar '@', ⟨3, 4⟩⟩)
    span.start ≤ span.stop ∧ Excerpt.find? (.ofText text) span = some (Excerpt.of text span) ∧
      Resolves text ⟨1, 4⟩ (Excerpt.of text span) ∧
      p ∈ (ofList text).placed ∧ (Excerpt.of text p.2.span).line = 2 := by
  intro text span p
  have hspan : span.start ≤ span.stop := by decide
  have hp : p ∈ (ofList text).placed := .tail _ (.head _)
  obtain ⟨hfind, hresolves⟩ := (spans_resolved text).1 span hspan
  exact ⟨hspan, hfind, hresolves, hp, ((spans_resolved text).2.2 p hp).1⟩

end Diagnostic
end ClassScript
