/-
# Carets under the characters of a span

An excerpt shows the lines that a span touches, from the one that holds its first character to the
one that holds its last, and marks on each line the characters of the span (`markedLine`). The
columns are counted from where the line begins in the text, cut off at the end of what is shown.

The renderer does not know where the lines begin. It sums up the lengths of the lines above and one
for each line end, although a line end of two characters was taken off as a whole. So below each
line that ends in a carriage return and a line feed the carets stand one column too far to the
right: they mark the characters of a span that is moved by the number of such lines above
(`returnsAbove`). Where there is none, the carets mark exactly the characters of the span.

Key theorem: `carets_under_span`. The smallest text on which they do not: `carets_moved_by_return`.
-/
import ClassScript.Proofs.Diagnostic.Lookup

namespace ClassScript.Diagnostic

open Excerpt

/-! ### What an excerpt should show -/

/-- Whether a line begins at index `a` that the span touches: it does not end in front of the first
character of the span, and it does not begin behind the last one. -/
def touches (text : List Char) (span : Span) (a : Nat) : Bool :=
  begins text a && decide (span.start ≤ a + (lineFrom text a).length) &&
    decide (a ≤ max span.start (span.stop - 1))

/-- Where the lines begin that the span touches. -/
def touched (text : List Char) (span : Span) : List Nat :=
  (List.range (text.length + 1)).filter (touches text span)

/-- The line that begins at index `a` with its number in front, and below it carets under the
characters of the span that it shows, one at least. -/
def markedLine (text : List Char) (span : Span) (a : Nat) : List Char :=
  let shown := Text.dropBlankEnd (lineFrom text a)
  let first := min (max span.start a - a) shown.length
  let last := max first (min (max span.stop a - a) shown.length)
  let head := margin (lineIndex text a + 1) ++ "|    ".toList
  head ++ shown ++ '\n' :: List.replicate (head.length + first) ' ' ++
    List.replicate (max 1 (last - first)) '^' ++ ['\n']

/-- Whether the line that begins at index `a` ends in a carriage return. -/
def endsInReturn (text : List Char) (a : Nat) : Bool := (lineFrom text a).getLast? == some '\r'

/-- How many of the touched lines above the one that begins at index `a` end in a carriage
return. -/
def returnsAbove (text : List Char) (span : Span) (a : Nat) : Nat :=
  (touched text span).countP fun b => decide (b < a) && endsInReturn text b

variable {text : List Char} {span : Span} {a n r s t : Nat}

/-! ### Carriage returns -/

/-- A carriage return at the end of a line is blank, so it is not shown in any case. -/
theorem dropBlankEnd_dropReturn (line : List Char) :
    Text.dropBlankEnd (dropReturn line) = Text.dropBlankEnd line := by
  unfold dropReturn
  by_cases h : line.getLast? = some '\r'
  · rw [if_pos h]
    obtain ⟨front, rfl⟩ := List.getLast?_eq_some_iff.mp h
    have hblank : Text.isBlank '\r' = true := by decide
    simp [Text.dropBlankEnd, hblank]
  · rw [if_neg h]

/-- The line loses one character if it ends in a carriage return. -/
theorem length_dropReturn (text : List Char) (a : Nat) :
    (dropReturn (lineFrom text a)).length + (endsInReturn text a).toNat =
      (lineFrom text a).length := by
  unfold dropReturn endsInReturn
  by_cases h : (lineFrom text a).getLast? = some '\r'
  · have hpos : 0 < (lineFrom text a).length := List.length_pos_of_mem (List.mem_of_getLast? h)
    rw [if_pos h, List.length_dropLast, h, beq_self_eq_true, Bool.toNat_true]
    omega
  · rw [if_neg h, beq_false_of_ne h]
    rfl

/-! ### Lines one below the other -/

/-- One line is marked as it should be, if the columns are those of the span. -/
theorem renderLine_eq {line : List Char}
    (hline : Text.dropBlankEnd line = Text.dropBlankEnd (lineFrom text a))
    {first last : Nat} (hfirst : first = max s a - a) (hlast : last = max t a - a) :
    renderLine (lineIndex text a + 1) line first last = markedLine text ⟨s, t⟩ a := by
  simp [renderLine, markedLine, hline, hfirst, hlast]

/-- **The lines from one on are marked as for a span that is moved** by the number of carriage
returns above. The excerpt begins at index `origin`, and the lines in `above` are over and done
with; the renderer is `r` characters behind. -/
theorem renderLines_eq {e : Excerpt} {origin : Nat} (hstart : e.start = s - origin)
    (hstop : e.stop = t - origin) (hs : origin ≤ s) (ht : origin ≤ t) :
    ∀ {n a r : Nat} {above : List Nat}, begins text a = true → a ≤ text.length →
    lineIndex text a + n ≤ lineIndex text text.length + 1 → origin + r ≤ a →
    (∀ b ∈ above, b < a) → above.countP (endsInReturn text) = r →
    renderLines e (lineIndex text a + 1) (a - origin - r) ((shownLines (text.drop a)).take n) =
      (startsFrom text n a).flatMap fun b =>
        let r := (above ++ startsFrom text n a).countP fun x =>
          decide (x < b) && endsInReturn text x
        markedLine text ⟨s + r, t + r⟩ b
  | 0, a, r, above, _, _, _, _, _, _ => rfl
  | n + 1, a, r, above, hb, ha, hn, hr, habove, hcount => by
    -- the lines above this one are those that are done with
    have hreturns : (above ++ startsFrom text (n + 1) a).countP
        (fun x => decide (x < a) && endsInReturn text x) = r := by
      have hdone : above.countP (fun x => decide (x < a) && endsInReturn text x) = r := by
        rw [← hcount]
        refine List.countP_congr fun x hx => ?_
        simp [habove x hx]
      have hlater : (startsFrom text (n + 1) a).countP
          (fun x => decide (x < a) && endsInReturn text x) = 0 := by
        refine List.countP_eq_zero.mpr fun x hx => ?_
        have hle := le_of_mem_startsFrom hx
        simp [Nat.not_lt.mpr hle]
      rw [List.countP_append, hdone, hlater, Nat.add_zero]
    have hmarked : ∀ {line : List Char},
        Text.dropBlankEnd line = Text.dropBlankEnd (lineFrom text a) →
        renderLine (lineIndex text a + 1) line (e.start - (a - origin - r))
            (e.stop - (a - origin - r)) =
          markedLine text ⟨s + r, t + r⟩ a := by
      intro line hline
      exact renderLine_eq hline (by rw [hstart]; omega) (by rw [hstop]; omega)
    rw [startsFrom, List.flatMap_cons]
    rw [startsFrom] at hreturns
    dsimp only
    rw [hreturns]
    by_cases hfeed : '\n' ∈ text.drop a
    · obtain ⟨hle, hbegins, hindex⟩ := begins_next hfeed
      have hlength := length_dropReturn text a
      have hoffset : a - origin - r + (dropReturn (lineFrom text a)).length + 1 =
          a + (lineFrom text a).length + 1 - origin - (r + (endsInReturn text a).toNat) := by
        omega
      have hshown : shownLines (text.drop a) =
          dropReturn (lineFrom text a) ::
            shownLines (text.drop (a + (lineFrom text a).length + 1)) := by
        conv_lhs => rw [drop_line hfeed]
        exact shownLines_append lineFrom_free _
      have hcount' : (above ++ [a]).countP (endsInReturn text) =
          r + (endsInReturn text a).toNat := by
        rw [List.countP_append, hcount, List.countP_singleton]
        cases endsInReturn text a <;> rfl
      have hbelow := renderLines_eq hstart hstop hs ht (n := n) hbegins hle (by omega)
        (r := r + (endsInReturn text a).toNat) (by omega)
        (fun b hmem => by
          rcases List.mem_append.mp hmem with hmem | hmem
          · have hlt := habove b hmem
            omega
          · have heq := List.mem_singleton.mp hmem
            omega) hcount'
      rw [hshown, List.take_succ_cons, renderLines, hmarked (dropBlankEnd_dropReturn _), hoffset,
        ← hindex, hbelow, List.append_assoc, List.singleton_append]
    · -- the last line of the text is the last one of the excerpt, too
      have hline := drop_lastLine hfeed
      obtain rfl : n = 0 := by
        have hadd := lineIndex_add text a (text.length - a)
        rw [Nat.add_sub_cancel' ha,
          List.count_eq_zero.mpr fun hmem => hfeed (List.mem_of_mem_take hmem)] at hadd
        omega
      rw [shownLines_line hfeed, hline, List.take_succ_cons, renderLines, hmarked rfl]
      simp [renderLines, startsFrom]

/-! ### Whole excerpts -/

/-- The number of lines from the one that holds the first character of the span to the one that
holds its last. -/
def lineCount (text : List Char) (span : Span) : Nat :=
  lineIndex text (max span.start (span.stop - 1)) + 1 - lineIndex text span.start

/-- The excerpt does not reach beyond the text. -/
theorem lineCount_le (h : span.start ≤ span.stop) (h' : span.stop ≤ text.length) :
    lineIndex text span.start + lineCount text span ≤ lineIndex text text.length + 1 := by
  have hmono : lineIndex text span.start ≤ lineIndex text (max span.start (span.stop - 1)) :=
    lineIndex_mono (by omega)
  have htotal : lineIndex text (max span.start (span.stop - 1)) ≤ lineIndex text text.length :=
    lineIndex_mono (by omega)
  unfold lineCount
  omega

/-- **The lines that a span touches follow each other** from the one that holds its first character
on. -/
theorem touched_eq (h : span.start ≤ span.stop) (h' : span.stop ≤ text.length) :
    touched text span =
      startsFrom text (lineCount text span) (span.start - column text span.start) := by
  have hin : span.start ≤ text.length := Nat.le_trans h h'
  obtain ⟨-, hbegins, hindex⟩ := begins_column hin
  have hmono : lineIndex text span.start ≤ lineIndex text (max span.start (span.stop - 1)) :=
    lineIndex_mono (by omega)
  have hcount := lineCount_le h h'
  refine List.Pairwise.eq_of_mem_iff (List.pairwise_lt_range.sublist List.filter_sublist)
    (pairwise_startsFrom _ _) fun a => ?_
  rw [mem_startsFrom hbegins (by omega) (by omega), hindex, touched, List.mem_filter,
    List.mem_range, touches, Bool.and_eq_true, Bool.and_eq_true, decide_eq_true_eq,
    decide_eq_true_eq, reaches_iff_lineIndex (by omega), lineCount]
  constructor
  · rintro ⟨hlt, ⟨hb, hge⟩, hle⟩
    rw [le_iff_lineIndex hb] at hle
    exact ⟨hb, by omega, hge, by omega⟩
  · rintro ⟨hb, hle, hge, hlt⟩
    refine ⟨by omega, ⟨hb, hge⟩, ?_⟩
    rw [le_iff_lineIndex hb]
    omega

/-- The excerpt of a span that lies in the text. -/
theorem of_eq (h : span.start ≤ span.stop) (h' : span.stop ≤ text.length) :
    Excerpt.of text span =
      ⟨((shownLines text).drop (lineIndex text span.start)).take (lineCount text span),
        lineIndex text span.start + 1, column text span.start,
        column text span.start + (span.stop - span.start)⟩ := by
  have hstart : min span.start text.length = span.start := by omega
  have hstop : max span.start (min span.stop text.length) = span.stop := by omega
  simp only [Excerpt.of, find?_ofText, hstart, hstop, lineCount, Option.getD_some]

/-- **An excerpt marks the characters of the span, moved by the carriage returns above.** -/
theorem render_moved (h : span.start ≤ span.stop) (h' : span.stop ≤ text.length)
    (message : String) :
    (Excerpt.of text span).render message = Text.capitalize message ++ ".\n\n" ++
      String.ofList ((touched text span).flatMap fun a =>
        let r := returnsAbove text span a
        markedLine text ⟨span.start + r, span.stop + r⟩ a) := by
  have hin : span.start ≤ text.length := Nat.le_trans h h'
  obtain ⟨hcolumn, hbegins, hindex⟩ := begins_column hin
  have hcount := lineCount_le h h'
  have hfrom : (Excerpt.of text span).start =
      span.start - (span.start - column text span.start) := by
    rw [of_eq h h']
    dsimp only
    omega
  have hto : (Excerpt.of text span).stop = span.stop - (span.start - column text span.start) := by
    rw [of_eq h h']
    dsimp only
    omega
  have hlines := renderLines_eq hfrom hto (by omega) (by omega) (n := lineCount text span) (r := 0)
    hbegins (by omega) (by omega) (by omega) (List.forall_mem_nil _) List.countP_nil
  rw [← shownLines_drop (by omega) hbegins, hindex, Nat.sub_self, Nat.zero_sub, List.nil_append,
    ← touched_eq h h'] at hlines
  have hline : (Excerpt.of text span).line = lineIndex text span.start + 1 := by rw [of_eq h h']
  have hshown : (Excerpt.of text span).lines =
      ((shownLines text).drop (lineIndex text span.start)).take (lineCount text span) := by
    rw [of_eq h h']
  rw [Excerpt.render, hline, hshown, hlines]
  rfl

/-- **Carets stand under the characters of a span, but for carriage returns above.** An excerpt
shows the lines that the span touches. On each of them it marks the characters of the span, moved
by the number of lines above that end in a carriage return; so it marks exactly those of the span
if no line but the last one does. -/
theorem carets_under_span (h : span.start ≤ span.stop) (h' : span.stop ≤ text.length)
    (message : String) :
    (Excerpt.of text span).render message = Text.capitalize message ++ ".\n\n" ++
      String.ofList ((touched text span).flatMap fun a =>
        let r := returnsAbove text span a
        markedLine text ⟨span.start + r, span.stop + r⟩ a) ∧
    ((∀ a ∈ touched text span, ∀ b ∈ touched text span, b < a → endsInReturn text b = false) →
      (Excerpt.of text span).render message = Text.capitalize message ++ ".\n\n" ++
        String.ofList ((touched text span).flatMap fun a => markedLine text span a)) := by
  have hmoved := render_moved h h' message
  refine ⟨hmoved, fun hreturns => ?_⟩
  have hnone : ∀ a ∈ touched text span, returnsAbove text span a = 0 := by
    intro a ha
    refine List.countP_eq_zero.mpr fun b hb => ?_
    by_cases hlt : b < a
    · simp [hlt, hreturns a ha b hb hlt]
    · simp [hlt]
  have hunmoved : ((touched text span).flatMap fun a =>
      markedLine text ⟨span.start + returnsAbove text span a, span.stop + returnsAbove text span a⟩
        a) = (touched text span).flatMap fun a => markedLine text span a := by
    refine List.flatMap_congr fun a ha => ?_
    rw [hnone a ha, Nat.add_zero, Nat.add_zero]
  rw [hmoved, hunmoved]

/-- A span of three lines, of which the last one ends in a carriage return. -/
theorem carets_under_span_three_lines :
    let text := "if (a\n  +\n b) c;\r\nd".toList
    let span : Span := ⟨4, 13⟩
    span.start ≤ span.stop ∧ span.stop ≤ text.length ∧
      (∀ a ∈ touched text span, ∀ b ∈ touched text span, b < a → endsInReturn text b = false) ∧
      touched text span = [0, 6, 10] ∧
      (Excerpt.of text span).render "m" = Text.capitalize "m" ++ ".\n\n" ++
        String.ofList ((touched text span).flatMap fun a => markedLine text span a) := by
  intro text span
  have hreturns : ∀ a ∈ touched text span, ∀ b ∈ touched text span, b < a →
      endsInReturn text b = false := by
    decide
  exact ⟨by decide, by decide, hreturns, by decide,
    (carets_under_span (by decide) (by decide) "m").2 hreturns⟩

/-- Behind a line end of two characters, one character too many is marked. -/
theorem carets_moved_by_return :
    let text := "ab\r\ncde".toList
    let span : Span := ⟨1, 6⟩
    (Excerpt.of text span).render "m" ≠ Text.capitalize "m" ++ ".\n\n" ++
      String.ofList ((touched text span).flatMap fun a => markedLine text span a) := by
  intro text span
  rw [of_eq (by decide) (by decide)]
  decide

end ClassScript.Diagnostic
