/-
# Lexing tiles the text

The lexemes of a text that can be read throughout cover it: they stand one behind the
other, with gaps between them, up to the end of the input, which is the last lexeme and
stands nowhere else. Each token is the longest one that can stand at its place and is
what the characters under its span spell, each error stands where no token can, and the
line of a token counts the line ends in front of it (`Tiles`).

Key theorems: `Tiles.scan`, one step of the lexer, and `lexemes_tile`, a whole text.
-/
import ClassScript.Proofs.Token.Scanning

namespace ClassScript

open CharStream

/-- The characters of a text under a span. -/
def Span.under (s : Span) (cs : List Char) : List Char := (cs.drop s.start).take s.length

/-- The number of line ends in a text. -/
def lineEnds (cs : List Char) : Nat := cs.count '\n'

namespace Lexeme

/-- Where a lexeme stands. -/
def span : Lexeme → Span
  | .ok t => t.span
  | .error e => e.span

/-- What a lexeme in front of the end says of the text `cs` is so. -/
def Fits (cs : List Char) : Lexeme → Prop
  | .ok t =>
    t.token.SpelledBy (t.span.under cs) ∧ t.line = 1 + lineEnds (cs.take t.span.start) ∧
      Spelling (t.span.under cs) ∧
      ∀ w, w <+: cs.drop t.span.start → Spelling w → w.length ≤ t.span.length
  | .error e =>
    (∀ w, w <+: cs.drop e.span.start → ¬ Spelling w) ∧
      match e.problem with
      | .unexpectedChar c => e.span.under cs = [c]
      | .unterminatedText => (cs.drop e.span.start).head? = some '"' ∧ e.span.stop = cs.length
      | .unreadable _ => False

end Lexeme

/-- The lexemes cover the text `cs` from the character `i` on. -/
inductive Tiles (cs : List Char) : Nat → List Lexeme → Prop
  | last {i : Nat} : i ≤ cs.length → Gap true (Span.under ⟨i, cs.length⟩ cs) →
      Tiles cs i [.ok ⟨.endOfInput, .point cs.length, 1 + lineEnds cs⟩]
  | lexeme {i : Nat} {l : Lexeme} {ls : List Lexeme} :
      i ≤ l.span.start → l.span.start < l.span.stop → l.span.stop ≤ cs.length →
      Gap false (Span.under ⟨i, l.span.start⟩ cs) → l.Fits cs →
      Tiles cs l.span.stop ls → Tiles cs i (l :: ls)

/-! ### Places in a text -/

section Places

variable (before mid after : List Char)

theorem Span.under_mid : Span.under ⟨before.length, before.length + mid.length⟩
    (before ++ (mid ++ after)) = mid := by
  simp [Span.under, Span.length]

theorem Lexer.foldl_lineAfter (cs : List Char) (line : Nat) :
    cs.foldl Lexer.lineAfter line = line + lineEnds cs := by
  induction cs generalizing line with
  | nil => rfl
  | cons c cs ih =>
    rw [List.foldl_cons, ih]
    by_cases h : c = '\n'
    · simp [Lexer.lineAfter, lineEnds, h]
      omega
    · simp [Lexer.lineAfter, lineEnds, h]

/-- The place between two parts of a text. -/
def Lexer.between (before after : List Char) : Lexer :=
  ⟨ofList after, before.length, 1 + lineEnds before⟩

theorem Lexer.past_between : (Lexer.between before (mid ++ after)).past mid (ofList after) =
    Lexer.between (before ++ mid) after := by
  simp [Lexer.past, Lexer.between, Lexer.foldl_lineAfter, lineEnds, Nat.add_assoc]

/-- A text in memory has no failures. -/
theorem error_not_mem_ofList {failure : ReadFailure} {cs : List Char} : .error failure ∉ ofList cs := by
  simp [ofList]

/-- The front of a text in memory can be taken off. -/
theorem ofList_eq_append {cs : List Char} (taken : List Char) {rest : CharStream}
    (h : ofList cs = ofList taken ++ rest) : ∃ more, rest = ofList more ∧ cs = taken ++ more := by
  unfold ofList at h
  obtain ⟨xs, ys, rfl, hx, rfl⟩ := List.map_eq_append_iff.mp h
  exact ⟨ys, rfl, by rw [(List.map_inj_right (fun _ _ => Except.ok.inj)).mp hx]⟩

theorem ofList_front_iff {w cs : List Char} : ofList w <+: ofList cs ↔ w <+: cs := by
  constructor
  · rintro ⟨t, ht⟩
    obtain ⟨more, -, rfl⟩ := ofList_eq_append w ht.symm
    exact List.prefix_append ..
  · rintro ⟨t, rfl⟩
    simp

end Places

theorem Gap.to_last {last : Bool} {cs : List Char} (h : Gap last cs) : Gap true cs := by
  induction h with
  | nil => exact .nil
  | blank hc _ ih => exact .blank hc ih
  | comment body hb _ ih => exact .comment body hb ih
  | unended _ hb => exact .unended rfl hb

/-! ### One step and all steps -/

/-- What one step finds between two parts of a text: the end behind a last gap, or a lexeme behind
a gap. -/
inductive Found (before after : List Char) : Lexer.Step → Prop
  | ended : Gap true after →
      Found before after (.last (.ok ⟨.endOfInput, .point (before ++ after).length,
        1 + lineEnds (before ++ after)⟩))
  | lexeme {gap taken more : List Char} {l : Lexeme} :
      after = gap ++ (taken ++ more) → taken ≠ [] → Gap false gap →
      l.span = ⟨(before ++ gap).length, (before ++ gap).length + taken.length⟩ →
      l.Fits (before ++ after) →
      Found before after (.more l (.between (before ++ gap ++ taken) more))

/-- A token that is spelled by the characters it takes fits the text. -/
theorem Lexeme.fits_token {before taken more : List Char} {t : Token} (ht : t.SpelledBy taken)
    (hs : Spelling taken) (hl : Longest taken (ofList more)) :
    Lexeme.Fits (before ++ (taken ++ more))
      (.ok ⟨t, ⟨before.length, before.length + taken.length⟩, 1 + lineEnds before⟩) := by
  refine ⟨by rwa [Span.under_mid], by simp, by rwa [Span.under_mid], ?_⟩
  intro w hw hsw
  have := hl w (by simpa [← ofList_append, ofList_front_iff] using hw) hsw
  simpa [Span.length] using this

/-- **One step finds the end or a lexeme that fits.** -/
theorem Lexer.step_found (before after : List Char) :
    Found before after (Lexer.between before after).step := by
  obtain ⟨gap, rest, last, hs, hgap, hlast, hscan⟩ := (Lexer.between before after).step_spec
  obtain ⟨ahead, rfl, rfl⟩ := ofList_eq_append gap hs
  have hclosed : ahead ≠ [] → Gap false gap := by
    intro hne
    obtain ⟨c, cs, rfl⟩ := List.exists_cons_of_ne_nil hne
    cases last with
    | false => exact hgap
    | true => exact absurd rfl (hlast rfl c (ofList cs))
  have hbare : Bare (ofList ahead) →
      ∀ w, w <+: List.drop (before ++ gap).length (before ++ (gap ++ ahead)) → ¬ Spelling w := by
    intro hb w hw
    rw [← List.append_assoc, List.drop_left] at hw
    exact hb w (ofList_front_iff.mpr hw)
  rw [Lexer.past_between] at hscan
  generalize (Lexer.between before (gap ++ ahead)).step = step at hscan
  cases hscan with
  | ended he =>
    have hnil : ahead = [] := by simpa [ofList] using he
    subst hnil
    have hfound : Found before gap _ := .ended hgap.to_last
    simpa [Lexer.between] using hfound
  | @token t taken rest heq hsp ht hl =>
    obtain ⟨more, rfl, rfl⟩ := ofList_eq_append taken heq
    have hne : taken ≠ [] := by
      obtain ⟨c, cs, rfl, -⟩ := hsp.begins
      simp
    unfold Lexer.token
    rw [Lexer.past_between]
    refine .lexeme rfl hne (hclosed (by simp [hne])) rfl ?_
    rw [← List.append_assoc before]
    exact Lexeme.fits_token ht hsp hl
  | @unexpected c rest heq hb =>
    obtain ⟨more, rfl, rfl⟩ := ofList_eq_append [c] heq
    unfold Lexer.wrong
    rw [Lexer.past_between]
    refine .lexeme rfl (by simp) (hclosed (by simp)) rfl ⟨hbare hb, ?_⟩
    rw [← List.append_assoc before]
    exact Span.under_mid _ [c] _
  | @unterminated body heq hb =>
    obtain rfl : ahead = '"' :: body := (List.map_inj_right (fun _ _ => Except.ok.inj)).mp heq
    have hpast := Lexer.past_between (before ++ gap) ('"' :: body) []
    rw [ofList_nil, List.append_nil] at hpast
    unfold Lexer.wrong
    rw [hpast]
    refine .lexeme (by rw [List.append_nil]) (by simp) (hclosed (by simp)) rfl ⟨hbare hb, ?_, ?_⟩
    · rw [← List.append_assoc before]
      simp [Lexer.between]
    · simp [Lexer.between, Nat.add_assoc]
  | failed hf => exact absurd hf error_not_mem_ofList

/-- **From every place of a text on, the lexemes tile what is left.** A step takes a character at
least, so the bound on the number of steps is never met. -/
theorem Lexer.lexemes_tile_from : ∀ (n : Nat) (before after : List Char), after.length < n →
    Tiles (before ++ after) before.length (Lexer.lexemes n (.between before after))
  | n + 1, before, after, hn => by
    unfold Lexer.lexemes
    have hfound := Lexer.step_found before after
    generalize (Lexer.between before after).step = step at hfound
    cases hfound with
    | ended hgap =>
      refine .last (by simp) ?_
      simpa [Span.under, Span.length] using hgap
    | @lexeme gap taken more l hafter hne hgap hspan hfits =>
      subst hafter
      have hpos := List.length_pos_iff.mpr hne
      have hrest := Lexer.lexemes_tile_from n (before ++ gap ++ taken) more (by simp at hn; omega)
      refine .lexeme ?_ ?_ ?_ ?_ hfits ?_
      · simp [hspan]
      · simp [hspan, hpos]
      · simp [hspan]
        omega
      · rw [hspan, List.length_append, Span.under_mid]
        exact hgap
      · rw [hspan]
        simpa [Nat.add_assoc] using hrest

/-- **Lexing tiles the text.** -/
theorem lexemes_tile (cs : List Char) : Tiles cs 0 (CharStream.ofList cs).lexemes := by
  have := Lexer.lexemes_tile_from (cs.length + 1) [] cs (by omega)
  simpa [CharStream.lexemes, Lexer.between, lineEnds] using this

/-! ### Streams with failures

A failure ends the lexemes, wherever it is met. Up to there they stand in order as well. -/

/-- The lexemes stand one behind the other from the character `lo` on, and an end of the input is
the last of them. -/
inductive InOrder : Nat → List Lexeme → Prop
  | nil {lo : Nat} : InOrder lo []
  | cons {lo : Nat} {l : Lexeme} {ls : List Lexeme} :
      lo ≤ l.span.start → l.span.start ≤ l.span.stop →
      (∀ t, l = .ok t → t.token = .endOfInput → ls = []) → InOrder l.span.stop ls →
      InOrder lo (l :: ls)

namespace InOrder

variable {lo lo' : Nat} {ls ls' : List Lexeme}

theorem mono (h : InOrder lo ls) (hlo : lo' ≤ lo) : InOrder lo' ls := by
  cases h with
  | nil => exact .nil
  | cons h1 h2 h3 h4 => exact .cons (Nat.le_trans hlo h1) h2 h3 h4

theorem tail {l : Lexeme} (h : InOrder lo (l :: ls)) : InOrder l.span.start ls := by
  cases h with
  | cons _ h2 _ h4 => exact h4.mono h2

theorem le_start (h : InOrder lo ls) : ∀ l ∈ ls, lo ≤ l.span.start := by
  induction h with
  | nil => simp
  | cons h1 h2 _ _ ih =>
    intro l hl
    rcases List.mem_cons.mp hl with rfl | hl
    · exact h1
    · have := ih l hl
      omega

theorem suffix : ∀ {xs : List Lexeme}, InOrder lo (xs ++ ls) → InOrder lo ls
  | [], h => h
  | x :: xs, h => by
    have hx := h.le_start x (by simp)
    exact suffix (h.tail.mono hx)

end InOrder

/-- **The lexemes of any stream stand in order.** -/
theorem Lexer.lexemes_inOrder : ∀ (n : Nat) (l : Lexer), InOrder l.index (Lexer.lexemes n l)
  | 0, l => .nil
  | n + 1, l => by
    obtain ⟨gap, rest, -, -, -, -, hscan⟩ := l.step_spec
    unfold Lexer.lexemes
    generalize l.step = step at hscan
    have hmore : ∀ {x : Lexeme} {taken : List Char} {rest' : CharStream},
        x.span = ⟨l.index + gap.length, l.index + gap.length + taken.length⟩ →
        (∀ t, x = .ok t → t.token ≠ .endOfInput) →
        InOrder l.index (x :: Lexer.lexemes n ((l.past gap rest).past taken rest')) := by
      intro x taken rest' hspan hinner
      have htail := lexemes_inOrder n ((l.past gap rest).past taken rest')
      refine .cons ?_ ?_ (fun t hx ht => absurd ht (hinner t hx)) ?_
      · rw [hspan]
        exact Nat.le_add_right ..
      · rw [hspan]
        exact Nat.le_add_right ..
      · rw [hspan]
        exact htail
    have hlast : ∀ {x : Lexeme} {k : Nat}, x.span = .point (l.index + gap.length + k) →
        InOrder l.index [x] := by
      intro x k hspan
      refine .cons ?_ ?_ (fun _ _ _ => rfl) .nil
      · rw [hspan, Nat.add_assoc]
        exact Nat.le_add_right ..
      · rw [hspan]
        exact Nat.le_refl _
    cases hscan with
    | ended => exact hlast (k := 0) rfl
    | failed => exact hlast rfl
    | token _ _ ht =>
      refine hmore rfl ?_
      rintro t ⟨⟩ rfl
      exact ht
    | unexpected => exact hmore rfl (by simp)
    | unterminated => exact hmore rfl (by simp)

end ClassScript
