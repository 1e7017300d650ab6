/-
# Lexing a text that cannot be read to its end

A lexeme is taken only once the characters that decide it have been read: where the
characters `cs` stand ahead, either they fix the next lexeme, and it is the same whatever
stands behind them, or the lexer looks further and meets what is there (`Decides`). So a
failure to read truncates the lexemes: those in front of it are the first lexemes of every
stream that begins with the characters that could be read.

Key theorems: `step_decides`, one step of the lexer, and `read_failure_truncates`.
-/
import ClassScript.Proofs.Token.Joining

namespace ClassScript

open CharStream

/-- Lexing goes on behind the lexeme: it is neither the end of the input nor a failure to read. -/
def Lexeme.GoesOn : Lexeme → Prop
  | .ok t => t.token ≠ .endOfInput
  | .error e => ∀ failure, e.problem ≠ .unreadable failure

namespace Lexer

variable {l : Lexer} {c : Char} {cs taken more : List Char} {t : Token}

/-! ### What the characters ahead decide -/

/-- What the characters `cs` ahead of the place `l` decide of a step, which is given as a function
of the stream behind them: the lexeme, or nothing. If nothing, a failure behind them is met, and no
character behind `cs` is counted. -/
inductive Decides (l : Lexer) (cs : List Char) (step : CharStream → Step) : Prop
  | lexeme {x : Lexeme} (taken more : List Char) : cs = taken ++ more → taken ≠ [] → x.GoesOn →
      x.span.stop ≤ l.index + taken.length →
      (∀ s, step s = .more x (l.past taken (ofList more ++ s))) → Decides l cs step
  | nothing {n : Nat} : n ≤ cs.length →
      (∀ failure s, step (.error failure :: s) = l.failed n failure) → Decides l cs step

theorem Decides.token (taken more : List Char) {step : CharStream → Step}
    (hcs : cs = taken ++ more) (hne : taken ≠ []) (ht : t ≠ .endOfInput)
    (h : ∀ s, step s = l.token t taken (ofList more ++ s)) :
    Decides l cs step :=
  .lexeme (x := .ok ⟨t, _, _⟩) taken more hcs hne ht (Nat.le_refl _) h

/-- A token that needs a look at what follows is decided if a character follows. -/
theorem Decides.tokenBefore (taken more : List Char) {step : CharStream → Step}
    (hcs : cs = taken ++ more) (hne : taken ≠ []) (ht : t ≠ .endOfInput)
    (h : ∀ s, step s = l.tokenBefore t taken (ofList more ++ s)) :
    Decides l cs step := by
  cases more with
  | nil => exact .nothing (by simp [hcs]) fun failure s => h _
  | cons c more => exact .token _ _ hcs hne ht h

/-- Where a run of characters ends is decided, or the run takes all of them. -/
theorem run_decides (p : Char → Bool) : ∀ cs : List Char,
    (∃ taken c more, cs = taken ++ c :: more ∧
      ∀ s, run p (ofList cs ++ s) = (taken, ofList (c :: more) ++ s)) ∨
    ∀ failure s, run p (ofList cs ++ .error failure :: s) = (cs, .error failure :: s)
  | [] => .inr fun _ _ => rfl
  | c :: cs => by
    cases hc : p c with
    | false => exact .inl ⟨[], c, cs, rfl, fun s => run_stop hc⟩
    | true =>
      rcases run_decides p cs with ⟨taken, d, more, rfl, h⟩ | h
      · exact .inl ⟨c :: taken, d, more, rfl, fun s => by
          rw [ofList_cons, List.cons_append, run_ok hc, h]⟩
      · exact .inr fun failure s => by rw [ofList_cons, List.cons_append, run_ok hc, h]

/-! ### One lexeme -/

theorem text_decides (cs : List Char) : Decides l ('"' :: cs) fun s => l.text (ofList cs ++ s) := by
  rcases run_decides (· ≠ '"') cs with ⟨body, c, more, rfl, h⟩ | h
  · refine .token ('"' :: body ++ [c]) more (t := .text (String.ofList body))
      (by simp) (by simp) (by simp) fun s => ?_
    unfold text
    rw [h s]
    rfl
  · refine .nothing (n := cs.length + 1) (by simp) fun failure s => ?_
    unfold text
    rw [h failure s]

theorem word_decides (hc : isNameStart c) (cs : List Char) :
    Decides l (c :: cs) fun s => l.word (.ok c :: (ofList cs ++ s)) := by
  have hstart := isNameChar_of_start hc
  have hword : ∀ word, wordToken word ≠ .endOfInput := by
    intro word
    unfold wordToken
    split <;> simp
  rcases run_decides isNameChar cs with ⟨taken, d, more, rfl, h⟩ | h
  · refine .tokenBefore (c :: taken) (d :: more)
      (t := wordToken (String.ofList (c :: taken))) rfl (by simp) (hword _) fun s => ?_
    unfold word
    rw [run_ok hstart, h s]
  · refine .nothing (Nat.le_refl _) fun failure s => ?_
    unfold word
    rw [run_ok hstart, h failure s]
    rfl

theorem number_decides (hc : c.isDigit) (cs : List Char) :
    Decides l (c :: cs) fun s => l.number (.ok c :: (ofList cs ++ s)) := by
  have hfront : ∀ s, CharStream.run Char.isDigit (.ok c :: s) = _ := fun s => run_ok hc
  rcases run_decides Char.isDigit cs with ⟨whole, d, more, rfl, h⟩ | h
  · by_cases hpoint : d = '.'
    · subst hpoint
      cases more with
      | nil =>
        refine .nothing (n := (c :: whole).length) (by simp) fun failure s => ?_
        unfold number
        rw [hfront, h]
        rfl
      | cons d more =>
        by_cases hd : d.isDigit
        · rcases run_decides Char.isDigit (d :: more) with ⟨fraction, e, more', hmore, h'⟩ | h'
          · refine .tokenBefore (c :: whole ++ '.' :: fraction) (e :: more')
              (t := .number (numberOf (c :: whole ++ '.' :: fraction))) (by simp [hmore]) (by simp)
              (by simp) fun s => ?_
            have hs := h' s
            unfold number
            simp only [hfront, h, ofList_cons, List.cons_append, if_pos hd] at hs ⊢
            rw [hs]
          · refine .nothing (Nat.le_refl _) fun failure s => ?_
            have hs := h' failure s
            unfold number
            simp only [hfront, h, ofList_cons, List.cons_append, if_pos hd] at hs ⊢
            rw [hs]
            rfl
        · refine .token (c :: whole) ('.' :: d :: more)
            (t := .number (numberOf (c :: whole))) (by simp) (by simp) (by simp) fun s => ?_
          unfold number
          simp only [hfront, h, ofList_cons, List.cons_append, if_neg hd]
    · refine .tokenBefore (c :: whole) (d :: more)
        (t := .number (numberOf (c :: whole))) rfl (by simp) (by simp) fun s => ?_
      refine (number_whole fun s' hs' => ?_).trans ?_
      · rw [hfront, h] at hs'
        exact hpoint (Except.ok.inj (List.cons.inj hs').1)
      · rw [hfront, h]
  · refine .nothing (Nat.le_refl _) fun failure s => ?_
    refine (number_whole fun s' hs' => ?_).trans ?_
    · rw [hfront, h] at hs'
      cases hs'
    · rw [hfront, h]
      rfl

theorem lexemeAt_decides (c : Char) (cs : List Char) :
    Decides l (c :: cs) fun s => l.lexemeAt c (ofList cs ++ s) := by
  unfold lexemeAt
  cases hsymbol : Symbol.ofChar? c with
  | some symbol => exact .token [c] cs rfl (by simp) (by simp) fun _ => rfl
  | none =>
    cases hequal : Symbol.withEqual? c with
    | some symbols =>
      obtain ⟨alone, joined⟩ := symbols
      cases cs with
      | nil => exact .nothing (n := 1) (Nat.le_refl _) fun _ _ => rfl
      | cons d cs =>
        by_cases hd : d = '='
        · subst hd
          exact .token [c, '='] cs (t := .symbol joined) rfl (by simp)
            (by simp) fun _ => rfl
        · refine .tokenBefore [c] (d :: cs) (t := .symbol alone) rfl (by simp)
            (by simp) fun s => ?_
          dsimp only
          split
          next heq => exact absurd (Except.ok.inj (List.cons.inj heq).1) hd
          next => rfl
    | none =>
      dsimp only
      by_cases hq : c = '"'
      · subst hq
        exact text_decides cs
      by_cases hd : c.isDigit
      · simpa only [if_neg hq, if_pos hd] using number_decides hd cs
      by_cases hn : isNameStart c
      · simpa only [if_neg hq, if_neg hd, if_pos hn] using word_decides hn cs
      · simp only [if_neg hq, if_neg hd, if_neg hn]
        exact .lexeme [c] cs rfl (by simp) (by simp [Lexeme.GoesOn]) (Nat.le_refl _)
          fun _ => rfl

/-! ### What stands in front of a lexeme -/

/-- What the characters `cs` ahead of the place `l` decide of skipping a gap, which is given as a
function of the stream behind them: a character that begins no gap, at which it stops, or nothing.
If nothing, it stops at a failure behind them, or at a slash in front of that, which might have
begun a comment. -/
inductive Skips (l : Lexer) (cs : List Char) (skipping : CharStream → Lexer) : Prop
  | stops (gap : List Char) {more : List Char} {c : Char} : cs = gap ++ c :: more →
      (c = '/' → more ≠ []) → (∀ s, skipping s = l.past gap (ofList (c :: more) ++ s)) →
      Skips l cs skipping
  | nothing (gap : List Char) {more : List Char} : cs = gap ++ more → more = [] ∨ more = ['/'] →
      (∀ failure s, skipping (.error failure :: s) =
        l.past gap (ofList more ++ .error failure :: s)) → Skips l cs skipping

theorem past_past (l : Lexer) (xs ys : List Char) (r s : CharStream) :
    (l.past xs r).past ys s = l.past (xs ++ ys) s := by
  simp [past, Nat.add_assoc]

/-- A character that is skipped stands in front of what is skipped behind it. -/
theorem Skips.cons {r : CharStream} {skipping skipping' : CharStream → Lexer}
    (h : Skips (l.past [c] r) cs skipping') (hs : ∀ s, skipping s = skipping' s) :
    Skips l (c :: cs) skipping := by
  cases h with
  | @stops gap more d hcs hd h =>
    exact .stops (c :: gap) (by simp [hcs]) hd fun s => by rw [hs, h, past_past]; rfl
  | @nothing gap more hcs hmore h =>
    exact .nothing (c :: gap) (by simp [hcs]) hmore fun failure s => by
      rw [hs, h, past_past]; rfl

theorem skip_skips : ∀ (cs : List Char) (inComment : Bool) (l : Lexer),
    Skips l cs fun s => skip inComment l.index l.line (ofList cs ++ s)
  | [], inComment, l => .nothing [] rfl (.inl rfl) fun _ _ => by cases inComment <;> rfl
  | c :: cs, true, l => .cons (r := []) (skip_skips cs (c ≠ '\n') (l.past [c] [])) fun s => by
      rw [ofList_cons, List.cons_append, skip, if_pos rfl]
      rfl
  | c :: cs, false, l => by
    by_cases hb : Text.isBlank c
    · refine .cons (r := []) (skip_skips cs false (l.past [c] [])) fun s => ?_
      rw [ofList_cons, List.cons_append, skip, if_neg (by simp), if_pos hb]
      rfl
    · -- only a slash needs a look at what follows
      have hstop : ∀ s, atComment (.ok c :: (ofList cs ++ s)) = false →
          skip false l.index l.line (ofList (c :: cs) ++ s) = l.past [] (ofList (c :: cs) ++ s) := by
        intro s hs
        rw [ofList_cons, List.cons_append, skip, if_neg (by simp), if_neg hb, hs]
        rfl
      have hat : ∀ s, atComment (.ok c :: (ofList cs ++ s)) = true ↔
          c = '/' ∧ ∃ rest, ofList cs ++ s = .ok '/' :: rest := by
        intro s
        rw [atComment_iff]
        simp
      by_cases hslash : c = '/'
      · subst hslash
        cases cs with
        | nil => exact .nothing [] rfl (.inr rfl) fun failure s => hstop _ rfl
        | cons d ds =>
          by_cases hd : d = '/'
          · subst hd
            have hcomment : ∀ s, atComment (.ok '/' :: (ofList ('/' :: ds) ++ s)) = true :=
              fun s => (hat s).mpr ⟨rfl, _, rfl⟩
            refine .cons (r := []) (skip_skips ('/' :: ds) true (l.past ['/'] [])) fun s => ?_
            rw [ofList_cons, List.cons_append, skip, if_neg (by simp), if_neg hb,
              if_pos (hcomment s)]
            rfl
          · refine .stops [] rfl (by simp) fun s => hstop s ?_
            rw [Bool.eq_false_iff, ne_eq, hat]
            rintro ⟨-, rest, hrest⟩
            exact hd (Except.ok.inj (List.cons.inj hrest).1)
      · refine .stops [] rfl (fun h => absurd h hslash) fun s => hstop s ?_
        rw [Bool.eq_false_iff, ne_eq, hat]
        exact fun h => hslash h.1

/-! ### One step and all steps -/

/-- What is decided behind a gap is decided. -/
theorem Decides.behind {gap : List Char} {r : CharStream} {step : CharStream → Step}
    (h : Decides (l.past gap r) cs step) : Decides l (gap ++ cs) step := by
  cases h with
  | @lexeme x taken more hcs hne hx hstop h =>
    refine .lexeme (gap ++ taken) more (by simp [hcs]) (by simp [hne]) hx ?_
      fun s => by rw [h, past_past]
    simp only [past, List.length_append] at hstop ⊢
    omega
  | @nothing n hn h =>
    refine .nothing (n := gap.length + n) (by simp [hn]) fun failure s => ?_
    rw [h]
    simp [failed, past, Nat.add_assoc]

/-- **The characters ahead decide the next lexeme, or nothing of it.** -/
theorem step_decides (l : Lexer) (cs : List Char) :
    Decides l cs fun s => step ⟨ofList cs ++ s, l.index, l.line⟩ := by
  cases skip_skips cs false l with
  | @stops gap more c hcs hc h =>
    have hstep : (fun s => step ⟨ofList cs ++ s, l.index, l.line⟩) =
        fun s => (l.past gap []).lexemeAt c (ofList more ++ s) := by
      funext s
      rw [step_eq]
      dsimp only
      rw [h]
      refine (stepHere_char fun hslash failure s' hs' => ?_).trans rfl
      obtain ⟨d, ds, rfl⟩ := List.exists_cons_of_ne_nil (hc hslash)
      cases hs'
    rw [hstep, hcs]
    exact .behind (lexemeAt_decides c more)
  | @nothing gap more hcs hmore h =>
    refine .nothing (n := gap.length) (by simp [hcs]) fun failure s => ?_
    rw [step_eq]
    dsimp only
    rw [h]
    rcases hmore with rfl | rfl <;> rfl

/-- From a place with the characters `cs` ahead, the lexemes that they decide come first, whatever
stands behind them. A failure there is met next. -/
theorem lexemes_decided (l : Lexer) (cs : List Char) : ∃ (front : List Lexeme) (i : Nat),
    front.length ≤ cs.length ∧ l.index ≤ i ∧ i ≤ l.index + cs.length ∧
      (∀ x ∈ front, x.GoesOn ∧ x.span.stop ≤ i) ∧
      (∀ n s, cs.length ≤ n → front <+: lexemes n ⟨ofList cs ++ s, l.index, l.line⟩) ∧
      ∀ n failure s, cs.length < n →
        lexemes n ⟨ofList cs ++ .error failure :: s, l.index, l.line⟩ =
          front ++ [.error ⟨.unreadable failure, .point i⟩] := by
  cases step_decides l cs with
  | @lexeme x taken more hcs hne hx hstop hstep =>
    have hpos := List.length_pos_iff.mpr hne
    have hlen : cs.length = taken.length + more.length := by rw [hcs, List.length_append]
    obtain ⟨front, i, hfront, hlo, hhi, hall, hprefix, hfails⟩ :=
      lexemes_decided (l.past taken []) more
    simp only [past] at hlo hhi hprefix hfails
    refine ⟨x :: front, i, ?_, by omega, by omega, ?_, fun n s hn => ?_, fun n failure s hn => ?_⟩
    · rw [List.length_cons]
      omega
    · exact List.forall_mem_cons.mpr ⟨⟨hx, by omega⟩, hall⟩
    · obtain ⟨n, rfl⟩ : ∃ m, n = m + 1 := ⟨n - 1, by omega⟩
      rw [lexemes_more (hstep s)]
      exact List.cons_prefix_cons.mpr ⟨rfl, hprefix n s (by omega)⟩
    · obtain ⟨n, rfl⟩ : ∃ m, n = m + 1 := ⟨n - 1, by omega⟩
      rw [lexemes_more (hstep _), List.cons_append]
      exact congrArg (x :: ·) (hfails n failure s (by omega))
  | @nothing n hn hstep =>
    refine ⟨[], l.index + n, Nat.zero_le _, by omega, by omega, by simp, fun _ _ _ =>
      List.nil_prefix, fun m failure s hm => ?_⟩
    obtain ⟨m, rfl⟩ : ∃ k, m = k + 1 := ⟨m - 1, by omega⟩
    exact lexemes_last (hstep failure s)
termination_by cs.length
decreasing_by omega

end Lexer

/-- **A failure to read truncates the lexemes.** Where only the first `k` characters of a text can
be read, the lexemes are some that lexing goes on behind, and then the failure, whatever the device
yields after it. Those in front of it are the first lexemes of every stream that begins with the
characters that could be read. The failure has no width, and stands behind them and no further than
these characters go. -/
theorem read_failure_truncates (cs : List Char) (k : Nat) : ∃ (front : List Lexeme) (i : Nat),
    (∀ failure after, (failingAt cs k failure after).lexemes =
      front ++ [.error ⟨.unreadable failure, .point i⟩]) ∧
    (∀ x ∈ front, x.GoesOn ∧ x.span.stop ≤ i) ∧ i ≤ min k cs.length ∧
    ∀ s : CharStream, front <+: (ofList (cs.take k) ++ s).lexemes := by
  obtain ⟨front, i, -, -, hi, hall, hprefix, hfails⟩ :=
    Lexer.lexemes_decided ⟨[], 0, 1⟩ (cs.take k)
  refine ⟨front, i, fun failure after => ?_, hall, ?_, fun s => ?_⟩
  · refine hfails _ failure (ofList after) ?_
    simp only [failingAt, List.length_append, length_ofList]
    omega
  · simpa using hi
  · refine hprefix _ s ?_
    simp only [List.length_append, length_ofList]
    omega

/-- A point behind a number may belong to it, so the number is not taken. -/
example (failure : ReadFailure) : (failingAt ['(', '1', '.', '5'] 3 failure []).lexemes =
    [.ok ⟨.symbol .openParen, ⟨0, 1⟩, 1⟩, .error ⟨.unreadable failure, .point 2⟩] := rfl

end ClassScript
