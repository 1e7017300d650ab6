/-
# Lexing one text behind another

The lexemes of two texts with a line end between them are those of the first one up to
its end, and those of the second one, moved behind the first. For a token of the first
text ends where it did, because none goes on over a line end (`step_extend`), a comment
at its end is over behind the line end (`step_end`), and lexing does the same at every
place (`step_move`).

Key theorem: `lexemes_join`.
-/
import ClassScript.Proofs.Token.Tiling

namespace ClassScript

open CharStream

/-! ### The same text in another place -/

/-- The span moved behind `k` more characters. -/
def Span.shift (k : Nat) (s : Span) : Span := ⟨s.start + k, s.stop + k⟩

theorem Span.shift_join (k : Nat) (s t : Span) :
    (s.join t).shift k = (s.shift k).join (t.shift k) := by
  simp [shift, join, Nat.add_min_add_right, Nat.add_max_add_right]

/-- The token moved behind `k` more characters and `n` more line ends. -/
def PlacedToken.move (k n : Nat) (t : PlacedToken) : PlacedToken :=
  ⟨t.token, t.span.shift k, t.line + n⟩

def Lexeme.move (k n : Nat) : Lexeme → Lexeme
  | .ok t => .ok (t.move k n)
  | .error e => .error ⟨e.problem, e.span.shift k⟩

/-- Whether a lexeme is a text constant that never ends. -/
def Lexeme.unterminated : Lexeme → Bool
  | .error ⟨.unterminatedText, _⟩ => true
  | _ => false

namespace Lexer

variable {k n : Nat} {l : Lexer} {c : Char} {cs : List Char} {s rest : CharStream}

def move (k n : Nat) (l : Lexer) : Lexer := ⟨l.rest, l.index + k, l.line + n⟩

def Step.move (k n : Nat) : Step → Step
  | .more x next => .more (x.move k n) (next.move k n)
  | .last x => .last (x.move k n)

theorem skip_move (k n : Nat) : ∀ (s : CharStream) (inComment : Bool) (index line : Nat),
    skip inComment (index + k) (line + n) s = (skip inComment index line s).move k n
  | [], _, _, _ => rfl
  | .error _ :: _, _, _, _ => rfl
  | .ok c :: s, inComment, index, line => by
    have hline : lineAfter (line + n) c = lineAfter line c + n := by
      unfold lineAfter
      split <;> omega
    unfold skip
    rw [hline, Nat.add_right_comm index k 1, skip_move k n s, skip_move k n s, skip_move k n s]
    split
    · rfl
    split
    · rfl
    split <;> rfl

theorem past_move : (l.move k n).past cs rest = (l.past cs rest).move k n := by
  simp only [past, move, foldl_lineAfter, Lexer.mk.injEq, true_and]
  omega

theorem token_move {t : Token} : (l.move k n).token t cs rest = (l.token t cs rest).move k n := by
  unfold token
  rw [past_move]
  simp [Step.move, Lexeme.move, PlacedToken.move, Span.shift, move, Nat.add_right_comm]

theorem failed_move {count : Nat} {failure : ReadFailure} :
    (l.move k n).failed count failure = (l.failed count failure).move k n := by
  simp [failed, Step.move, Lexeme.move, Span.shift, Span.point, move, Nat.add_right_comm]

theorem wrong_move {problem : LexProblem} :
    (l.move k n).wrong problem cs rest = (l.wrong problem cs rest).move k n := by
  unfold wrong
  rw [past_move]
  simp [Step.move, Lexeme.move, Span.shift, move, Nat.add_right_comm]

theorem tokenBefore_move {t : Token} :
    (l.move k n).tokenBefore t cs rest = (l.tokenBefore t cs rest).move k n := by
  unfold tokenBefore
  split
  · exact failed_move
  · exact token_move

theorem text_move : (l.move k n).text s = (l.text s).move k n := by
  unfold text
  dsimp only
  split
  · exact wrong_move
  · exact failed_move
  · exact token_move

theorem number_move : (l.move k n).number s = (l.number s).move k n := by
  unfold number
  dsimp only
  split
  · exact failed_move
  · split
    · exact tokenBefore_move
    · exact token_move
  · exact tokenBefore_move

theorem lexemeAt_move : (l.move k n).lexemeAt c s = (l.lexemeAt c s).move k n := by
  unfold lexemeAt
  split
  · exact token_move
  split
  · split
    · exact token_move
    · exact tokenBefore_move
  split
  · exact text_move
  split
  · exact number_move
  split
  · exact tokenBefore_move
  · exact wrong_move

/-- What a step does at a place where no gap begins. -/
def stepHere (l : Lexer) : Step :=
  match l.rest with
  | [] => .last (.ok ⟨.endOfInput, .point l.index, l.line⟩)
  | .error failure :: _ => l.failed 0 failure
  | .ok '/' :: .error failure :: _ => l.failed 0 failure
  | .ok c :: s => l.lexemeAt c s

theorem step_eq (l : Lexer) : l.step = (skip false l.index l.line l.rest).stepHere := rfl

theorem stepHere_move : (l.move k n).stepHere = l.stepHere.move k n := by
  unfold stepHere
  rw [show (l.move k n).rest = l.rest from rfl]
  split
  · simp [Step.move, Lexeme.move, PlacedToken.move, Span.shift, Span.point, move]
  · exact failed_move
  · exact failed_move
  · exact lexemeAt_move

/-- **A step does the same at every place.** -/
theorem step_move (k n : Nat) (l : Lexer) : (l.move k n).step = l.step.move k n := by
  rw [step_eq, step_eq, ← stepHere_move, ← skip_move]
  rfl

theorem lexemes_move (k n : Nat) : ∀ (f : Nat) (l : Lexer),
    lexemes f (l.move k n) = (lexemes f l).map (Lexeme.move k n)
  | 0, _ => rfl
  | f + 1, l => by
    unfold lexemes
    rw [step_move]
    cases l.step with
    | last x => rfl
    | more x next => exact congrArg (x.move k n :: ·) (lexemes_move k n f next)

/-! ### A longer text

`more` is what stands behind the line end that follows. -/

variable {more : CharStream}

/-- The same place in a text that goes on with a line end and `more`. -/
def extend (more : CharStream) (l : Lexer) : Lexer := ⟨l.rest ++ .ok '\n' :: more, l.index, l.line⟩

def Step.extend (more : CharStream) : Step → Step
  | .more x next => .more x (next.extend more)
  | .last x => .last x

/-- A run that ends in front of the end or at a line end goes no further. -/
theorem run_extend {p : Char → Bool} (h : (run p s).2 ≠ [] ∨ p '\n' = false) :
    run p (s ++ .ok '\n' :: more) = ((run p s).1, (run p s).2 ++ .ok '\n' :: more) := by
  induction s with
  | nil =>
    have hp : p '\n' = false := h.resolve_left fun hne => hne rfl
    simp [run, yields, hp]
  | cons x s ih =>
    cases x with
    | error failure => simp [run, yields]
    | ok c =>
      cases hc : p c with
      | false => rw [List.cons_append, run_stop hc, run_stop hc, List.cons_append]
      | true =>
        rw [run_ok hc] at h
        rw [List.cons_append, run_ok hc, run_ok hc, ih h]

theorem atComment_extend (x : Except ReadFailure Char) (s : CharStream) :
    atComment (x :: (s ++ .ok '\n' :: more)) = atComment (x :: s) := by
  cases s with
  | nil =>
    rw [Bool.eq_iff_iff, atComment_iff, atComment_iff]
    simp
  | cons y s =>
    rw [Bool.eq_iff_iff, atComment_iff, atComment_iff]
    simp

/-- Skipping stops at the same place, if it does not come to the end. -/
theorem skip_extend : ∀ (s : CharStream) (inComment : Bool) (index line : Nat),
    (skip inComment index line s).rest ≠ [] →
    skip inComment index line (s ++ .ok '\n' :: more) = (skip inComment index line s).extend more
  | [], _, _, _, h => absurd rfl h
  | .error _ :: _, _, _, _, _ => rfl
  | .ok c :: s, inComment, index, line, h => by
    unfold skip at h
    rw [List.cons_append]
    unfold skip
    rw [atComment_extend]
    split at h
    next hc => rw [if_pos hc, if_pos hc, skip_extend s _ _ _ h]
    next hc =>
      rw [if_neg hc, if_neg hc]
      split at h
      next hb => rw [if_pos hb, if_pos hb, skip_extend s _ _ _ h]
      next hb =>
        rw [if_neg hb, if_neg hb]
        split at h
        next ha => rw [if_pos ha, if_pos ha, skip_extend s _ _ _ h]
        next ha =>
          rw [if_neg ha, if_neg ha]
          rfl

/-- Skipping that comes to the end goes on behind the line end. -/
theorem skip_end : ∀ (cs : List Char) (inComment : Bool) (index line : Nat),
    (skip inComment index line (ofList cs)).rest = [] →
    skip inComment index line (ofList cs ++ .ok '\n' :: more) =
      skip false (index + cs.length + 1) (line + lineEnds cs + 1) more
  | [], inComment, index, line, _ => by
    cases inComment <;> rfl
  | c :: cs, inComment, index, line, h => by
    have hline : lineAfter line c + lineEnds cs = line + lineEnds (c :: cs) := by
      rw [← foldl_lineAfter, ← foldl_lineAfter, List.foldl_cons]
    have hnext : ∀ {b : Bool}, (skip b (index + 1) (lineAfter line c) (ofList cs)).rest = [] →
        skip b (index + 1) (lineAfter line c) (ofList cs ++ .ok '\n' :: more) =
          skip false (index + (c :: cs).length + 1) (line + lineEnds (c :: cs) + 1) more := by
      intro b hb
      rw [skip_end cs b _ _ hb, hline, List.length_cons, Nat.add_assoc index 1, Nat.add_comm 1]
    rw [ofList_cons, skip] at h
    rw [ofList_cons, List.cons_append, skip, atComment_extend]
    split at h
    next hc => rw [if_pos hc, hnext h]
    next hc =>
      rw [if_neg hc]
      split at h
      next hb => rw [if_pos hb, hnext h]
      next hb =>
        rw [if_neg hb]
        split at h
        next ha =>
          obtain ⟨_, hslash⟩ := atComment_iff.mp ha
          obtain rfl : c = '/' := by simpa using (List.cons.inj hslash).1
          rw [if_pos ha]
          exact hnext h
        next ha => cases h

/-! ### One lexeme of a longer text -/

variable {x : Lexeme} {next : Lexer}

theorem tokenBefore_extend {t : Token} :
    l.tokenBefore t cs (rest ++ .ok '\n' :: more) = (l.tokenBefore t cs rest).extend more := by
  cases rest with
  | nil => rfl
  | cons x rest => cases x <;> rfl

theorem word_extend : l.word (s ++ .ok '\n' :: more) = (l.word s).extend more := by
  unfold word
  rw [run_extend (.inr (by decide))]
  exact tokenBefore_extend

/-- Digits without a point behind them. -/
theorem number_whole (h : ∀ s', (run Char.isDigit s).2 ≠ .ok '.' :: s') :
    l.number s = l.tokenBefore (.number (numberOf (run Char.isDigit s).1)) (run Char.isDigit s).1
      (run Char.isDigit s).2 := by
  unfold number
  dsimp only
  split
  next heq => exact absurd heq (h _)
  next heq => exact absurd heq (h _)
  next => rfl

theorem number_extend : l.number (s ++ .ok '\n' :: more) = (l.number s).extend more := by
  have hrun : run Char.isDigit (s ++ .ok '\n' :: more) = _ := run_extend (.inr (by decide))
  by_cases hpoint : ∃ s', (run Char.isDigit s).2 = .ok '.' :: s'
  · obtain ⟨s', hs'⟩ := hpoint
    unfold number
    rw [hrun]
    generalize run Char.isDigit s = r at hs'
    obtain ⟨whole, rest⟩ := r
    obtain rfl : rest = .ok '.' :: s' := hs'
    cases s' with
    | nil => rfl
    | cons y s' =>
      cases y with
      | error failure => rfl
      | ok d =>
        have hmore : run Char.isDigit (.ok d :: s' ++ .ok '\n' :: more) = _ :=
          run_extend (.inr (by decide))
        simp only [List.cons_append] at hmore ⊢
        split
        · rw [hmore]
          exact tokenBefore_extend
        · rfl
  · rw [not_exists] at hpoint
    have hpoint' : ∀ s', (run Char.isDigit (s ++ .ok '\n' :: more)).2 ≠ .ok '.' :: s' := by
      intro s' hs'
      rw [hrun] at hs'
      cases hr : (run Char.isDigit s).2 with
      | nil => simp [hr] at hs'
      | cons x r =>
        rw [hr, List.cons_append] at hs'
        exact hpoint r (by rw [hr, (List.cons.inj hs').1])
    rw [number_whole hpoint, number_whole hpoint', hrun]
    exact tokenBefore_extend

theorem text_extend (h : (run (· ≠ '"') s).2 ≠ []) :
    l.text (s ++ .ok '\n' :: more) = (l.text s).extend more := by
  unfold text
  rw [run_extend (.inl h)]
  generalize run (· ≠ '"') s = r at h
  obtain ⟨body, rest⟩ := r
  cases rest with
  | nil => exact absurd rfl h
  | cons x rest => cases x <;> rfl

/-- A text constant has a closing quote, unless it is refused for having none. -/
theorem text_closed (h : l.text s = .more x next) (hx : x.unterminated = false) :
    (run (· ≠ '"') s).2 ≠ [] := by
  unfold text at h
  generalize run (· ≠ '"') s = r at h
  obtain ⟨body, rest⟩ := r
  rintro rfl
  cases h
  cases hx

theorem lexemeAt_extend (h : l.lexemeAt c s = .more x next) (hx : x.unterminated = false) :
    l.lexemeAt c (s ++ .ok '\n' :: more) = .more x (next.extend more) := by
  have hquote : c = '"' → l.text s = .more x next := by
    rintro rfl
    exact h
  suffices hext : l.lexemeAt c (s ++ .ok '\n' :: more) = (l.lexemeAt c s).extend more by
    rw [hext, h]
    rfl
  unfold lexemeAt
  split
  · rfl
  split
  · cases s with
    | nil => rfl
    | cons x s =>
      by_cases hx : x = .ok '='
      · subst hx
        rfl
      · rw [List.cons_append]
        split
        next heq => exact absurd (List.cons.inj heq).1 hx
        split
        next heq => exact absurd (List.cons.inj heq).1 hx
        rw [← List.cons_append]
        exact tokenBefore_extend
  split
  next hq => exact text_extend (text_closed (hquote hq) hx)
  split
  · exact number_extend (s := .ok c :: s)
  split
  · exact word_extend (s := .ok c :: s)
  · rfl

/-- A slash in front of a failure is not looked at. -/
theorem stepHere_char {index line : Nat} (h : c = '/' → ∀ failure s', s ≠ .error failure :: s') :
    stepHere ⟨.ok c :: s, index, line⟩ = lexemeAt ⟨.ok c :: s, index, line⟩ c s := by
  unfold stepHere
  dsimp only
  split
  next heq => cases heq
  next heq => cases heq
  next heq =>
    obtain ⟨hc, hs⟩ := List.cons.inj heq
    exact absurd hs (h (Except.ok.inj hc) _ _)
  next heq =>
    obtain ⟨hc, rfl⟩ := List.cons.inj heq
    rw [Except.ok.inj hc]

theorem stepHere_extend (h : l.stepHere = .more x next) (hx : x.unterminated = false) :
    (l.extend more).stepHere = .more x (next.extend more) := by
  obtain ⟨rest, index, line⟩ := l
  match rest with
  | [] => cases h
  | .error failure :: rest => cases h
  | .ok c :: rest =>
    have hfront : c = '/' → ∀ failure s, rest ≠ .error failure :: s := by
      rintro rfl failure s rfl
      cases h
    rw [stepHere_char hfront] at h
    refine Eq.trans (stepHere_char fun hc failure s hs => ?_) (lexemeAt_extend h hx)
    cases rest with
    | nil => cases hs
    | cons x rest =>
      obtain ⟨rfl, -⟩ := List.cons.inj hs
      exact hfront hc failure rest rfl

/-- What a step goes on from is behind something. -/
theorem skip_rest_ne_nil (h : l.step = .more x next) :
    (skip false l.index l.line l.rest).rest ≠ [] := by
  intro hnil
  rw [step_eq, stepHere, hnil] at h
  cases h

/-- **A lexeme that a line end follows is the same** in a text that goes on there, if it is not a
text constant without an end. -/
theorem step_extend (h : l.step = .more x next) (hx : x.unterminated = false) :
    (l.extend more).step = .more x (next.extend more) := by
  have hne := skip_rest_ne_nil h
  rw [step_eq] at h
  rw [step_eq, ← stepHere_extend h hx, ← skip_extend _ _ _ _ hne]
  rfl

/-- **The end of a text is no lexeme** in a text that goes on there. -/
theorem step_end {before after ds : List Char} {t : PlacedToken}
    (h : (between before after).step = .last (.ok t)) :
    (between before (after ++ '\n' :: ds)).step = (between (before ++ after ++ ['\n']) ds).step := by
  have hnil : (skip false before.length (1 + lineEnds before) (ofList after)).rest = [] := by
    rw [step_eq] at h
    change (skip false before.length (1 + lineEnds before) (ofList after)).stepHere = _ at h
    generalize skip false before.length (1 + lineEnds before) (ofList after) = l at h
    unfold stepHere at h
    split at h
    next hr => exact hr
    next => cases h
    next => cases h
    next _ c s _ _ =>
      have hscan := lexemeAt_scans l c s
      rw [h] at hscan
      generalize hx : Step.last (.ok t) = step at hscan
      cases hscan with
      | ended hs => cases hs
      | token | unexpected | unterminated | failed => cases hx
  rw [step_eq, step_eq]
  congr 1
  have hskip := @skip_end (ofList ds) after false _ _ hnil
  simpa [between, lineEnds, Nat.add_assoc] using hskip

/-! ### All lexemes -/

/-- A step takes a character at least. -/
theorem step_shorter {x : Lexeme} {next : Lexer} {before after : List Char}
    (h : (between before after).step = .more x next) :
    ∃ taken more, after = taken ++ more ∧ taken ≠ [] ∧ next = between (before ++ taken) more := by
  have hfound := step_found before after
  rw [h] at hfound
  generalize hy : Step.more x next = step at hfound
  cases hfound with
  | ended => cases hy
  | @lexeme gap taken more _ hafter hne =>
    cases hy
    exact ⟨gap ++ taken, more, by rw [hafter, List.append_assoc], by simp [hne],
      by rw [List.append_assoc]⟩

theorem lexemes_last {x : Lexeme} (h : l.step = .last x) : lexemes (n + 1) l = [x] := by
  rw [lexemes, h]

theorem lexemes_more {x : Lexeme} {next : Lexer} (h : l.step = .more x next) :
    lexemes (n + 1) l = x :: lexemes n next := by
  rw [lexemes, h]

/-- More steps than there are characters find nothing more. -/
theorem lexemes_enough : ∀ (m n : Nat) (before after : List Char), after.length < m →
    after.length < n → lexemes m (between before after) = lexemes n (between before after)
  | m + 1, n + 1, before, after, hm, hn => by
    cases hstep : (between before after).step with
    | last x => rw [lexemes_last hstep, lexemes_last hstep]
    | more x next =>
      obtain ⟨taken, more, rfl, hne, rfl⟩ := step_shorter hstep
      have hpos := List.length_pos_iff.mpr hne
      rw [List.length_append] at hm hn
      rw [lexemes_more hstep, lexemes_more hstep, lexemes_enough m n _ more (by omega) (by omega)]

theorem between_extend (before after ds : List Char) :
    (between before after).extend (ofList ds) = between before (after ++ '\n' :: ds) := by
  simp [between, extend]

/-- The lexemes of a text without errors are tokens and the end of the input. Where the text goes on
behind a line end, the tokens are the same, and behind them stand the lexemes from there on. -/
theorem lexemes_join_from (ds : List Char) : ∀ (n : Nat) (before after : List Char),
    after.length < n → (∀ x ∈ lexemes n (between before after), ∃ t, x = .ok t) →
    ∃ (ts : List PlacedToken) (e : PlacedToken),
      lexemes n (between before after) = ts.map .ok ++ [.ok e] ∧ e.token = .endOfInput ∧
      (∀ t ∈ ts, t.token ≠ .endOfInput) ∧
      ∀ m, (after ++ '\n' :: ds).length < m → lexemes m (between before (after ++ '\n' :: ds)) =
        ts.map .ok ++ lexemes (ds.length + 1) (between (before ++ after ++ ['\n']) ds)
  | n + 1, before, after, hn, hok => by
    have hfound := step_found before after
    cases hstep : (between before after).step with
    | last x =>
      rw [lexemes_last hstep] at hok ⊢
      rw [hstep] at hfound
      obtain ⟨e, rfl⟩ := hok x (.head _)
      refine ⟨[], e, rfl, ?_, by simp, fun m hm => ?_⟩
      · generalize hy : Step.last (.ok e) = step at hfound
        cases hfound with
        | ended =>
          cases hy
          rfl
        | lexeme => cases hy
      · have hfront : lexemes m (between before (after ++ '\n' :: ds)) =
            lexemes m (between (before ++ after ++ ['\n']) ds) := by
          cases m with
          | zero => rfl
          | succ m => rw [lexemes, lexemes, step_end hstep]
        simp only [List.length_append, List.length_cons] at hm
        exact hfront.trans (lexemes_enough _ _ _ _ (by omega) (by omega))
    | more x next =>
      rw [lexemes_more hstep] at hok ⊢
      rw [hstep] at hfound
      obtain ⟨t, rfl⟩ := hok x (.head _)
      obtain ⟨taken, rest, rfl, hne, rfl⟩ := step_shorter hstep
      have hpos := List.length_pos_iff.mpr hne
      rw [List.length_append] at hn
      obtain ⟨ts, e, heq, he, hts, hjoin⟩ := lexemes_join_from ds n (before ++ taken) rest (by omega)
        fun x hx => hok x (.tail _ hx)
      refine ⟨t :: ts, e, congrArg (.ok t :: ·) heq, he, List.forall_mem_cons.mpr ⟨?_, hts⟩,
        fun m hm => ?_⟩
      · generalize hy : Step.more (.ok t) _ = step at hfound
        cases hfound with
        | ended => cases hy
        | lexeme _ _ _ _ hfits =>
          obtain ⟨rfl, -⟩ := Step.more.inj hy
          intro hend
          have hspelled := hfits.1
          rw [hend] at hspelled
          exact hspelled
      · have hlonger : (between before (taken ++ rest ++ '\n' :: ds)).step =
            .more (.ok t) (between (before ++ taken) (rest ++ '\n' :: ds)) := by
          rw [← between_extend, ← between_extend]
          exact step_extend hstep rfl
        simp only [List.length_append, List.length_cons] at hm
        cases m with
        | zero => omega
        | succ m =>
          have hrest := hjoin m (by simp only [List.length_append, List.length_cons]; omega)
          rw [List.append_assoc before taken rest] at hrest
          rw [lexemes_more hlonger, hrest]
          rfl

end Lexer

theorem lexemes_eq_between (cs : List Char) :
    (ofList cs).lexemes = Lexer.lexemes (cs.length + 1) (.between [] cs) := by
  simp [CharStream.lexemes, Lexer.between, lineEnds]

/-- **Lexing one text behind another.** The lexemes of a text without errors are tokens and the end
of the input. With a line end and another text behind it, the lexemes are the same tokens, and
then those of the other text, moved. -/
theorem lexemes_join {cs : List Char} (ds : List Char)
    (h : ∀ x ∈ (ofList cs).lexemes, ∃ t, x = .ok t) :
    ∃ (ts : List PlacedToken) (e : PlacedToken), (ofList cs).lexemes = ts.map .ok ++ [.ok e] ∧
      e.token = .endOfInput ∧ (∀ t ∈ ts, t.token ≠ .endOfInput) ∧
      (ofList (cs ++ '\n' :: ds)).lexemes =
        ts.map .ok ++ (ofList ds).lexemes.map (Lexeme.move (cs.length + 1) (lineEnds cs + 1)) := by
  have hmoved : Lexer.between (cs ++ ['\n']) ds =
      (Lexer.between [] ds).move (cs.length + 1) (lineEnds cs + 1) := by
    simp [Lexer.between, Lexer.move, lineEnds]
  rw [lexemes_eq_between] at h
  obtain ⟨ts, e, heq, he, hts, hjoin⟩ := Lexer.lexemes_join_from ds _ [] cs (Nat.lt_succ_self _) h
  refine ⟨ts, e, (lexemes_eq_between cs).trans heq, he, hts, ?_⟩
  rw [lexemes_eq_between, lexemes_eq_between, hjoin _ (Nat.lt_succ_self _), List.nil_append, hmoved,
    Lexer.lexemes_move]

end ClassScript
