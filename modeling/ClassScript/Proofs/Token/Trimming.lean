/-
# Lexing without the blank characters in front of line ends

The blank characters in front of a line end stand between tokens, in a comment or inside a text
constant. Without them the gaps and comments are still gaps and comments (`skip_trimmed`), and every
token is the same (`lexemeAt_trimmed`), but for a text constant, which is then without them too.

Key theorems: `Text.trimLines_eq_self_iff`, and `contents_trimLines`.
-/
import ClassScript.Proofs.Console.Completable
import ClassScript.Proofs.Token.Display

namespace ClassScript

open CharStream

/-! ### Texts -/

namespace Text

/-- The text without the blank characters in front of its line ends. -/
def trimLines : List Char → List Char
  | [] => []
  | c :: cs =>
    if c ≠ '\n' ∧ isBlank c = true ∧ (trimLines cs).head? = some '\n' then trimLines cs
    else c :: trimLines cs

variable {c d : Char} {cs ds : List Char}

theorem trimLines_cons (c : Char) (cs : List Char) : trimLines (c :: cs) =
    if c ≠ '\n' ∧ isBlank c = true ∧ (trimLines cs).head? = some '\n' then trimLines cs
    else c :: trimLines cs := rfl

theorem trimLines_unblank (hc : isBlank c = false) : trimLines (c :: cs) = c :: trimLines cs := by
  rw [trimLines_cons, if_neg (by simp [hc])]

/-- A blank character at the front is kept or there is another one behind it. -/
theorem trimLines_blank (hc : isBlank c = true) (cs : List Char) :
    ∃ d ds, trimLines (c :: cs) = d :: ds ∧ isBlank d = true := by
  rw [trimLines_cons]
  split_ifs with h
  · obtain ⟨ds, hds⟩ := List.head?_eq_some_iff.mp h.2.2
    exact ⟨'\n', ds, hds, by decide⟩
  · exact ⟨c, _, rfl, hc⟩

/-- What is not blank is at the front of both texts or of neither. -/
theorem trimLines_eq_cons (hd : isBlank d = false) :
    trimLines cs = d :: ds ↔ ∃ cs', cs = d :: cs' ∧ ds = trimLines cs' := by
  constructor
  · intro h
    cases cs with
    | nil => cases h
    | cons c cs =>
      cases hc : isBlank c with
      | true =>
        obtain ⟨e, es, he, hblank⟩ := trimLines_blank hc cs
        obtain ⟨rfl, -⟩ := List.cons.inj (he.symm.trans h)
        simp [hd] at hblank
      | false =>
        rw [trimLines_unblank hc] at h
        obtain ⟨rfl, rfl⟩ := List.cons.inj h
        exact ⟨cs, rfl, rfl⟩
  · rintro ⟨cs', rfl, rfl⟩
    exact trimLines_unblank hd

/-- A character that is not blank parts what is in front of it from what is behind it. -/
theorem trimLines_append (hd : isBlank d = false) (ds : List Char) :
    trimLines (cs ++ d :: ds) = trimLines cs ++ d :: trimLines ds := by
  have hfeed : d ≠ '\n' := by
    rintro rfl
    cases hd
  induction cs with
  | nil => exact trimLines_unblank hd
  | cons c cs ih =>
    rw [List.cons_append, trimLines_cons, ih, trimLines_cons]
    have hhead : (trimLines cs ++ d :: trimLines ds).head? = some '\n' ↔
        (trimLines cs).head? = some '\n' := by
      cases trimLines cs with
      | nil => simp [hfeed]
      | cons e es => simp
    simp only [hhead]
    split_ifs
    · rfl
    · rfl

theorem dropBlankEnd_cons (c : Char) (cs : List Char) : dropBlankEnd (c :: cs) =
    if isBlank c = true ∧ dropBlankEnd cs = [] then [] else c :: dropBlankEnd cs := by
  unfold dropBlankEnd
  rw [List.reverse_cons, List.dropWhile_append]
  by_cases hnil : cs.reverse.dropWhile isBlank = []
  · rw [if_pos (by simp [hnil]), hnil]
    cases hc : isBlank c <;> simp [hc]
  · rw [if_neg (by simp [hnil]), if_neg (by simp [hnil]), List.reverse_append,
      List.reverse_singleton, List.singleton_append]

/-- A line without the blank characters at its end, and then its line end. -/
theorem trimLines_line (hcs : '\n' ∉ cs) (rest : List Char) :
    trimLines (cs ++ '\n' :: rest) = dropBlankEnd cs ++ '\n' :: trimLines rest := by
  induction cs with
  | nil => exact if_neg fun h => h.1 rfl
  | cons c cs ih =>
    rw [List.mem_cons, not_or] at hcs
    obtain ⟨hne, hcs⟩ := hcs
    rw [List.cons_append, trimLines_cons, ih hcs, dropBlankEnd_cons]
    have hhead : (dropBlankEnd cs ++ '\n' :: trimLines rest).head? = some '\n' ↔
        dropBlankEnd cs = [] := by
      cases hd : dropBlankEnd cs with
      | nil => simp
      | cons d ds =>
        have hmem : d ∈ cs := by
          have hsub : d ∈ dropBlankEnd cs := hd ▸ List.mem_cons_self
          exact List.mem_reverse.mp ((List.dropWhile_sublist _).subset (List.mem_reverse.mp hsub))
        have hfeed : d ≠ '\n' := fun h => hcs (h ▸ hmem)
        simp [hfeed]
    simp only [hhead, Ne.symm hne, ne_eq, not_false_eq_true, true_and]
    split_ifs with h
    · rw [h.2]
    · rfl

theorem trimLines_sublist (cs : List Char) : (trimLines cs).Sublist cs := by
  induction cs with
  | nil => exact .slnil
  | cons c cs ih =>
    rw [trimLines_cons]
    split_ifs
    · exact ih.cons c
    · exact ih.cons_cons c

/-- Nothing is taken off exactly if no blank character stands directly in front of a line end. Two
line ends may follow each other. -/
theorem trimLines_eq_self_iff : trimLines cs = cs ↔
    ∀ front c rest, cs = front ++ c :: '\n' :: rest → isBlank c = true → c = '\n' := by
  induction cs with
  | nil => simp [trimLines]
  | cons c cs ih =>
    rw [trimLines_cons]
    split_ifs with h
    · obtain ⟨hne, hblank, hhead⟩ := h
      constructor
      · intro heq
        have hle := (trimLines_sublist cs).length_le
        rw [heq, List.length_cons] at hle
        omega
      · intro hall
        have hcs : trimLines cs = cs :=
          ih.mpr fun front d rest heq => hall (c :: front) d rest (by rw [heq, List.cons_append])
        rw [hcs] at hhead
        obtain ⟨rest, rfl⟩ := List.head?_eq_some_iff.mp hhead
        exact absurd (hall [] c rest rfl hblank) hne
    · rw [List.cons.injEq, ih]
      refine ⟨fun ⟨_, hall⟩ front d rest heq hd => ?_, fun hall =>
        ⟨rfl, fun front d rest heq => hall (c :: front) d rest (by rw [heq, List.cons_append])⟩⟩
      cases front with
      | nil =>
        obtain ⟨rfl, rfl⟩ := List.cons.inj heq
        by_contra hne
        exact h ⟨hne, hd, rfl⟩
      | cons e front => exact hall front d rest (List.cons.inj heq).2 hd

end Text

/-- What a lexeme is, wherever it stands. -/
def Lexeme.content : Lexeme → Except LexProblem Token
  | .ok t => .ok t.token
  | .error e => .error e.problem

/-- The token, if it is a text without the blank characters in front of its line ends. -/
def Token.trimLines : Token → Token
  | .text s => .text (String.ofList (Text.trimLines s.toList))
  | t => t

/-! ### One lexeme -/

namespace Lexer

open Text (trimLines trimLines_unblank trimLines_eq_cons)

variable {l l' : Lexer} {t : Token} {c : Char} {cs taken taken' : List Char}

/-- One step finds what the other does, but for the ends of lines in a text constant, and what is
left for the other is what is left, with the ends of its lines trimmed. -/
inductive Trimmed : Step → Step → Prop
  | last {x y : Lexeme} : y.content = x.content.map Token.trimLines → Trimmed (.last x) (.last y)
  | more {x y : Lexeme} {next next' : Lexer} {cs : List Char} :
      y.content = x.content.map Token.trimLines → next.rest = ofList cs →
      next'.rest = ofList (trimLines cs) → Trimmed (.more x next) (.more y next')

theorem token_trimmed (l l' : Lexer) (t : Token) (taken taken' cs : List Char) :
    Trimmed (l.token t taken (ofList cs)) (l'.token t.trimLines taken' (ofList (trimLines cs))) :=
  .more rfl rfl rfl

theorem wrong_trimmed (problem : LexProblem) (taken taken' cs : List Char) :
    Trimmed (l.wrong problem taken (ofList cs)) (l'.wrong problem taken' (ofList (trimLines cs))) :=
  .more rfl rfl rfl

theorem ofList_eq_cons {x : Except ReadFailure Char} {s : CharStream} (h : ofList cs = x :: s) :
    ∃ d ds, cs = d :: ds ∧ x = .ok d ∧ s = ofList ds := by
  obtain ⟨d, ds, hcs, hd, hds⟩ := List.map_eq_cons_iff.mp h
  exact ⟨d, ds, hcs, hd.symm, hds.symm⟩

/-- In a text in memory nothing fails behind a token. -/
theorem tokenBefore_ofList (cs : List Char) :
    l.tokenBefore t taken (ofList cs) = l.token t taken (ofList cs) := by
  cases cs <;> rfl

/-- A run of characters that are not blank is the same. -/
theorem run_trimmed {p : Char → Bool} (hp : ∀ c, Text.isBlank c → p c = false) :
    ∀ cs : List Char, ∃ taken rest, run p (ofList cs) = (taken, ofList rest) ∧
      run p (ofList (trimLines cs)) = (taken, ofList (trimLines rest))
  | [] => ⟨[], [], rfl, rfl⟩
  | c :: cs => by
    cases hc : p c with
    | true =>
      have hblank : Text.isBlank c = false := by
        by_contra h
        simp [hp c (by simpa using h)] at hc
      obtain ⟨taken, rest, hrun, hrun'⟩ := run_trimmed hp cs
      refine ⟨c :: taken, rest, ?_, ?_⟩
      · rw [ofList_cons, run_ok hc, hrun]
      · rw [trimLines_unblank hblank, ofList_cons, run_ok hc, hrun']
    | false =>
      refine ⟨[], c :: cs, by rw [ofList_cons, run_stop hc], ?_⟩
      cases hblank : Text.isBlank c with
      | true =>
        obtain ⟨d, ds, hds, hd⟩ := Text.trimLines_blank hblank cs
        rw [hds, ofList_cons, run_stop (hp d hd)]
      | false => rw [trimLines_unblank hblank, ofList_cons, run_stop hc]

/-- The body of a text constant goes up to the next quotation mark. -/
theorem run_body {body : List Char} {s : CharStream} (hbody : '"' ∉ body)
    (hs : ∀ c rest, s = .ok c :: rest → c = '"') : run (· ≠ '"') (ofList body ++ s) = (body, s) := by
  refine run_over (fun c hc => decide_eq_true ?_) fun c rest h => by simp [hs c rest h]
  rintro rfl
  exact hbody hc

theorem text_trimmed (cs : List Char) :
    Trimmed (l.text (ofList cs)) (l'.text (ofList (trimLines cs))) := by
  have hkept : ∀ {body : List Char}, '"' ∉ body → '"' ∉ trimLines body := fun h hmem =>
    h ((Text.trimLines_sublist _).subset hmem)
  by_cases hquote : '"' ∈ cs
  · obtain ⟨body, rest, rfl, hbody⟩ := List.eq_append_cons_of_mem hquote
    rw [Text.trimLines_append (by decide), ofList_append, ofList_append, ofList_cons, ofList_cons]
    unfold text
    rw [run_body hbody (by simp), run_body (hkept hbody) (by simp)]
    have h := token_trimmed l l' (.text (String.ofList body)) ('"' :: body ++ ['"'])
      ('"' :: trimLines body ++ ['"']) rest
    simpa [Token.trimLines] using h
  · have hrun := run_body (s := []) hquote (by simp)
    have hrun' := run_body (s := []) (hkept hquote) (by simp)
    rw [List.append_nil] at hrun hrun'
    unfold text
    rw [hrun, hrun']
    exact wrong_trimmed .unterminatedText _ _ []

/-- A number is the digits, if no point with a digit behind it follows. -/
theorem number_digits {rest : List Char} (hrun : run Char.isDigit (ofList cs) = (taken, ofList rest))
    (h : ∀ d more, rest = '.' :: d :: more → d.isDigit = false) :
    l.number (ofList cs) = l.token (.number (numberOf taken)) taken (ofList rest) := by
  unfold number
  rw [hrun]
  dsimp only
  split
  next heq =>
    obtain ⟨_, _, -, -, hmore⟩ := ofList_eq_cons heq
    obtain ⟨_, _, -, hfail, -⟩ := ofList_eq_cons hmore.symm
    cases hfail
  next heq =>
    obtain ⟨_, _, rfl, ⟨⟩, hmore⟩ := ofList_eq_cons heq
    obtain ⟨_, _, rfl, ⟨⟩, -⟩ := ofList_eq_cons hmore.symm
    rw [h _ _ rfl]
    rfl
  next => exact tokenBefore_ofList rest

theorem number_point {d : Char} {more fraction rest : List Char} (hd : d.isDigit = true)
    (hrun : run Char.isDigit (ofList cs) = (taken, ofList ('.' :: d :: more)))
    (hrun' : run Char.isDigit (ofList (d :: more)) = (fraction, ofList rest)) :
    l.number (ofList cs) = l.token (.number (numberOf (taken ++ '.' :: fraction)))
      (taken ++ '.' :: fraction) (ofList rest) := by
  rw [ofList_cons] at hrun'
  unfold number
  rw [hrun, ofList_cons, ofList_cons]
  refine Eq.trans (if_pos hd) ?_
  rw [hrun']
  exact tokenBefore_ofList rest

theorem number_trimmed (cs : List Char) :
    Trimmed (l.number (ofList cs)) (l'.number (ofList (trimLines cs))) := by
  obtain ⟨whole, rest, hrun, hrun'⟩ := run_trimmed digit_of_blank cs
  have hunblank : ∀ {d : Char}, d.isDigit = true → Text.isBlank d = false := by
    intro d hd
    cases hblank : Text.isBlank d with
    | false => rfl
    | true => simp [digit_of_blank d hblank] at hd
  by_cases hpoint : ∃ d more, rest = '.' :: d :: more ∧ d.isDigit = true
  · obtain ⟨d, more, rfl, hd⟩ := hpoint
    obtain ⟨fraction, rest, hfrac, hfrac'⟩ := run_trimmed digit_of_blank (d :: more)
    rw [trimLines_unblank (by decide), trimLines_unblank (hunblank hd)] at hrun'
    rw [trimLines_unblank (hunblank hd)] at hfrac'
    rw [number_point hd hrun hfrac, number_point hd hrun' hfrac']
    exact token_trimmed ..
  · have hnone : ∀ d more, rest = '.' :: d :: more → d.isDigit = false := by
      intro d more hrest
      by_contra hd
      exact hpoint ⟨d, more, hrest, by simpa using hd⟩
    have hnone' : ∀ d more, trimLines rest = '.' :: d :: more → d.isDigit = false := by
      intro d more hrest
      by_contra hd
      rw [Bool.not_eq_false] at hd
      obtain ⟨cs', rfl, hcs'⟩ := (trimLines_eq_cons (by decide)).mp hrest
      obtain ⟨more', rfl, -⟩ := (trimLines_eq_cons (hunblank hd)).mp hcs'.symm
      exact hpoint ⟨d, more', rfl, hd⟩
    rw [number_digits hrun hnone, number_digits hrun' hnone']
    exact token_trimmed ..

theorem word_trimmed (cs : List Char) :
    Trimmed (l.word (ofList cs)) (l'.word (ofList (trimLines cs))) := by
  obtain ⟨taken, rest, hrun, hrun'⟩ := run_trimmed nameChar_of_blank cs
  have hword : (wordToken (String.ofList taken)).trimLines = wordToken (String.ofList taken) := by
    unfold wordToken
    split <;> rfl
  unfold word
  rw [hrun, hrun']
  dsimp only
  rw [tokenBefore_ofList, tokenBefore_ofList]
  have h := token_trimmed l l' (wordToken (String.ofList taken)) taken taken rest
  rwa [hword] at h

/-- A symbol that an equals sign could follow, and does not. -/
theorem lexemeAt_alone {s : CharStream} {alone joined : Symbol}
    (hc : Symbol.withEqual? c = some (alone, joined)) (h : ∀ s', s ≠ .ok '=' :: s') :
    l.lexemeAt c s = l.tokenBefore (.symbol alone) [c] s := by
  have hchar : Symbol.ofChar? c = none := (Symbol.withEqual?_eq_some hc).2.2.1
  unfold lexemeAt
  rw [hchar, hc]
  dsimp only
  split
  next heq => exact absurd rfl (h _)
  next => rfl

theorem lexemeAt_joined {s : CharStream} {alone joined : Symbol}
    (hc : Symbol.withEqual? c = some (alone, joined)) :
    l.lexemeAt c (.ok '=' :: s) = l.token (.symbol joined) [c, '='] s := by
  have hchar : Symbol.ofChar? c = none := (Symbol.withEqual?_eq_some hc).2.2.1
  unfold lexemeAt
  rw [hchar, hc]
  rfl

/-- **The lexeme at a character is the same,** but for the ends of lines in a text constant. -/
theorem lexemeAt_trimmed (hc : Text.isBlank c = false) (cs : List Char) :
    Trimmed (l.lexemeAt c (ofList cs)) (l'.lexemeAt c (ofList (trimLines cs))) := by
  cases hequal : Symbol.withEqual? c with
  | some ss =>
    obtain ⟨alone, joined⟩ := ss
    by_cases hsign : ∃ cs', cs = '=' :: cs'
    · obtain ⟨cs', rfl⟩ := hsign
      rw [trimLines_unblank (by decide), ofList_cons, ofList_cons, lexemeAt_joined hequal,
        lexemeAt_joined hequal]
      exact token_trimmed _ _ (.symbol joined) _ _ _
    · have hplain : ∀ {ds : List Char}, (¬ ∃ ds', ds = '=' :: ds') → ∀ s', ofList ds ≠ .ok '=' :: s' := by
        intro ds hnone s' heq
        obtain ⟨e, ds', rfl, he, -⟩ := List.map_eq_cons_iff.mp heq
        obtain rfl := Except.ok.inj he
        exact hnone ⟨ds', rfl⟩
      have hsign' : ¬ ∃ ds', trimLines cs = '=' :: ds' := by
        rintro ⟨ds', hds'⟩
        obtain ⟨cs', rfl, -⟩ := (trimLines_eq_cons (by decide)).mp hds'
        exact hsign ⟨cs', rfl⟩
      rw [lexemeAt_alone hequal (hplain hsign), lexemeAt_alone hequal (hplain hsign'),
        tokenBefore_ofList, tokenBefore_ofList]
      exact token_trimmed _ _ (.symbol alone) _ _ _
  | none =>
    unfold lexemeAt
    rw [hequal]
    cases Symbol.ofChar? c with
    | some symbol => exact token_trimmed _ _ (.symbol symbol) _ _ _
    | none =>
      dsimp only
      split_ifs
      · exact text_trimmed cs
      · have h : Trimmed (l.number (ofList (c :: cs))) (l'.number (ofList (trimLines (c :: cs)))) :=
          number_trimmed (c :: cs)
        rwa [trimLines_unblank hc] at h
      · have h : Trimmed (l.word (ofList (c :: cs))) (l'.word (ofList (trimLines (c :: cs)))) :=
          word_trimmed (c :: cs)
        rwa [trimLines_unblank hc] at h
      · exact wrong_trimmed (.unexpectedChar c) _ _ cs

/-! ### A step -/

/-- What is not blank is at the front of both streams or of neither. -/
theorem front_trimmed {d : Char} (hd : Text.isBlank d = false) (cs : List Char) :
    (∃ s, ofList (trimLines cs) = .ok d :: s) ↔ ∃ s, ofList cs = .ok d :: s := by
  constructor
  · rintro ⟨s, hs⟩
    obtain ⟨_, _, hcs, ⟨⟩, -⟩ := ofList_eq_cons hs
    obtain ⟨cs', rfl, -⟩ := (trimLines_eq_cons hd).mp hcs
    exact ⟨_, rfl⟩
  · rintro ⟨s, hs⟩
    obtain ⟨_, _, rfl, ⟨⟩, -⟩ := ofList_eq_cons hs
    rw [trimLines_unblank hd]
    exact ⟨_, rfl⟩

theorem atComment_trimmed (c : Char) (cs : List Char) :
    atComment (.ok c :: ofList (trimLines cs)) = atComment (.ok c :: ofList cs) := by
  have hslash : Text.isBlank '/' = false := by decide
  have hfront := front_trimmed hslash cs
  rw [Bool.eq_iff_iff, atComment_iff, atComment_iff]
  simp only [List.cons.injEq, exists_and_left, hfront]

theorem skip_blank {inComment : Bool} {index line : Nat} {s : CharStream}
    (hc : Text.isBlank c = true) : skip inComment index line (.ok c :: s) =
      skip (inComment && c ≠ '\n') (index + 1) (lineAfter line c) s := by
  rw [skip]
  cases inComment with
  | true => rfl
  | false => rw [if_neg (by simp), if_pos hc, Bool.false_and]

/-- **The next lexeme begins at the same place,** behind blank characters and comments. -/
theorem skip_trimmed : ∀ (cs : List Char) (inComment : Bool) (index line index' line' : Nat),
    ∃ ds, (∀ c ∈ ds.head?, Text.isBlank c = false) ∧
      (skip inComment index line (ofList cs)).rest = ofList ds ∧
      (skip inComment index' line' (ofList (trimLines cs))).rest = ofList (trimLines ds)
  | [], _, _, _, _, _ => ⟨[], by simp, rfl, rfl⟩
  | c :: cs, inComment, index, line, index', line' => by
    cases hblank : Text.isBlank c with
    | true =>
      rw [ofList_cons, skip_blank hblank, Text.trimLines_cons]
      split_ifs with hdrop
      · rw [decide_eq_true hdrop.1, Bool.and_true]
        exact skip_trimmed cs inComment _ _ _ _
      · rw [ofList_cons, skip_blank hblank]
        exact skip_trimmed cs _ _ _ _ _
    | false =>
      have hstop : ∃ ds, (∀ d ∈ ds.head?, Text.isBlank d = false) ∧
          ofList (c :: cs) = ofList ds ∧ ofList (c :: trimLines cs) = ofList (trimLines ds) :=
        ⟨c :: cs, by simpa using hblank, rfl, by rw [trimLines_unblank hblank]⟩
      rw [trimLines_unblank hblank, ofList_cons, ofList_cons, skip, skip, atComment_trimmed, hblank]
      split_ifs with hcomment h
      · exact skip_trimmed cs _ _ _ _ _
      · cases h
      · exact skip_trimmed cs _ _ _ _ _
      · exact hstop

/-- **One step finds the same,** but for the ends of lines in a text constant. -/
theorem step_trimmed (hl : l.rest = ofList cs) (hl' : l'.rest = ofList (trimLines cs)) :
    Trimmed l.step l'.step := by
  obtain ⟨ds, hblank, hskip, hskip'⟩ := skip_trimmed cs false l.index l.line l'.index l'.line
  rw [step_eq, step_eq, hl, hl']
  generalize skip false l.index l.line (ofList cs) = here at hskip
  generalize skip false l'.index l'.line (ofList (trimLines cs)) = here' at hskip'
  obtain ⟨_, index, line⟩ := here
  obtain ⟨_, index', line'⟩ := here'
  subst hskip hskip'
  cases ds with
  | nil => exact .last rfl
  | cons c ds =>
    have hc : Text.isBlank c = false := hblank c rfl
    have hfine : ∀ (ds : List Char) (failure : ReadFailure) (s : CharStream),
        c = '/' → ofList ds ≠ .error failure :: s := by
      intro ds failure s _ heq
      obtain ⟨_, _, -, hfail, -⟩ := ofList_eq_cons heq
      cases hfail
    rw [trimLines_unblank hc, ofList_cons, ofList_cons,
      stepHere_char fun h failure s => hfine ds failure s h,
      stepHere_char fun h failure s => hfine _ failure s h]
    exact lexemeAt_trimmed hc ds

/-! ### All lexemes -/

/-- What a text is cut into, wherever it stands. -/
def contents (n : Nat) (l : Lexer) : List (Except LexProblem Token) :=
  (lexemes n l).map Lexeme.content

theorem contents_last {n : Nat} {x : Lexeme} (h : l.step = .last x) :
    contents (n + 1) l = [x.content] := by
  rw [contents, lexemes_last h, List.map_singleton]

theorem contents_more {n : Nat} {x : Lexeme} {next : Lexer} (h : l.step = .more x next) :
    contents (n + 1) l = x.content :: contents n next := by
  rw [contents, lexemes_more h, List.map_cons, contents]

theorem contents_trimmed : ∀ (n n' : Nat) (before before' after : List Char), after.length < n →
    (trimLines after).length < n' →
    contents n' (between before' (trimLines after)) =
      (contents n (between before after)).map (·.map Token.trimLines)
  | n + 1, n' + 1, before, before', after, hn, hn' => by
    have hstep : Trimmed (between before after).step (between before' (trimLines after)).step :=
      step_trimmed rfl rfl
    generalize hx : (between before after).step = x at hstep
    generalize hy : (between before' (trimLines after)).step = y at hstep
    cases hstep with
    | last hcontent =>
      rw [contents_last hx, contents_last hy, hcontent, List.map_singleton]
    | @more x y next next' cs hcontent hnext hnext' =>
      obtain ⟨taken, more, htaken, hne, rfl⟩ := step_shorter hx
      obtain ⟨taken', more', htaken', hne', rfl⟩ := step_shorter hy
      obtain rfl : more = cs := (List.map_inj_right (fun _ _ => Except.ok.inj)).mp hnext
      obtain rfl : more' = trimLines more := (List.map_inj_right (fun _ _ => Except.ok.inj)).mp hnext'
      have hpos := List.length_pos_iff.mpr hne
      have hpos' := List.length_pos_iff.mpr hne'
      have hlength := congrArg List.length htaken
      have hlength' := congrArg List.length htaken'
      rw [List.length_append] at hlength hlength'
      have hrest := contents_trimmed n n' (before ++ taken) (before' ++ taken') more (by omega)
        (by omega)
      rw [contents_more hx, contents_more hy, List.map_cons, hcontent, hrest]

/-! ### A line end behind a text -/

theorem contents_end (n : Nat) (before : List Char) :
    contents (n + 1) (between before []) = [.ok .endOfInput] := rfl

/-- A text constant that never ends is the last thing in front of the end. -/
theorem unterminated_ends {x : Lexeme} {next : Lexer} (h : l.step = .more x next)
    (hx : x.unterminated = true) : x.content = .error .unterminatedText ∧ next.rest = [] := by
  rw [step_eq] at h
  generalize skip false l.index l.line l.rest = here at h
  obtain ⟨rest, index, line⟩ := here
  match rest with
  | [] => cases h
  | .error failure :: rest => cases h
  | .ok c :: rest =>
    have hfront : c = '/' → ∀ failure s, rest ≠ .error failure :: s := by
      rintro rfl failure s rfl
      cases h
    rw [stepHere_char hfront] at h
    obtain ⟨rfl, hrun⟩ := lexemeAt_unterminated h hx
    change text _ rest = _ at h
    unfold text at h
    generalize run (· ≠ '"') rest = r at h hrun
    obtain ⟨body, rest⟩ := r
    obtain rfl : rest = [] := hrun
    cases h
    exact ⟨rfl, rfl⟩

/-- A text constant that never ends is found with a line end behind it, too, and nothing else is. -/
theorem contents_unterminated {n n' : Nat} {before after : List Char} {x : Lexeme} {next : Lexer}
    (h : (between before after).step = .more x next) (hx : x.unterminated = true) :
    contents (n' + 2) (between before (after ++ ['\n'])) =
      contents (n + 2) (between before after) := by
  obtain ⟨taken, rest, rfl, -, rfl⟩ := step_shorter h
  obtain ⟨x', next', h', hx'⟩ := step_unterminated h hx
  rw [← ofList_nil, between_extend] at h'
  obtain ⟨taken', rest', -, -, rfl⟩ := step_shorter h'
  obtain ⟨hcontent, hrest⟩ := unterminated_ends h hx
  obtain ⟨hcontent', hrest'⟩ := unterminated_ends h' hx'
  obtain rfl : rest = [] := List.map_eq_nil_iff.mp hrest
  obtain rfl : rest' = [] := List.map_eq_nil_iff.mp hrest'
  rw [contents_more h, contents_more h', hcontent, hcontent', contents_end, contents_end]

/-- **A line end behind all else** is no lexeme. -/
theorem contents_feed : ∀ (n n' : Nat) (before after : List Char), after.length < n →
    after.length + 1 < n' →
    contents n' (between before (after ++ ['\n'])) = contents n (between before after)
  | n + 1, n' + 1, before, after, hn, hn' => by
    cases hstep : (between before after).step with
    | last x =>
      have hfound := step_found before after
      rw [hstep] at hfound
      generalize hy : Step.last x = step at hfound
      cases hfound with
      | lexeme => cases hy
      | ended =>
        cases hy
        have hend : (between before (after ++ ['\n'])).step =
            (between (before ++ after ++ ['\n']) []).step := step_end hstep
        rw [contents_last hstep, contents_last (hend.trans rfl)]
        rfl
    | more x next =>
      obtain ⟨taken, rest, rfl, hne, rfl⟩ := step_shorter hstep
      have hpos := List.length_pos_iff.mpr hne
      rw [List.length_append] at hn hn'
      cases hx : x.unterminated with
      | false =>
        have hstep' : ((between before (taken ++ rest)).extend []).step =
            .more x ((between (before ++ taken) rest).extend []) := step_extend hstep hx
        rw [← ofList_nil, between_extend, between_extend] at hstep'
        rw [contents_more hstep, contents_more hstep',
          contents_feed n n' _ rest (by omega) (by omega)]
      | true =>
        obtain ⟨n, rfl⟩ : ∃ k, n = k + 1 := ⟨n - 1, by omega⟩
        obtain ⟨n', rfl⟩ : ∃ k, n' = k + 1 := ⟨n' - 1, by omega⟩
        exact contents_unterminated hstep hx

end Lexer

/-- The tokens and problems of a text, without their places. -/
def CharStream.contents (s : CharStream) : List (Except LexProblem Token) :=
  s.lexemes.map Lexeme.content

theorem contents_eq_between (cs : List Char) :
    (ofList cs).contents = Lexer.contents (cs.length + 1) (.between [] cs) := by
  rw [contents, lexemes_eq_between, Lexer.contents]

/-- **What a text is cut into without the blank characters in front of its line ends:** the same, but
for text constants, which are without them too. -/
theorem contents_trimLines (cs : List Char) :
    (ofList (Text.trimLines cs)).contents = (ofList cs).contents.map (·.map Token.trimLines) := by
  rw [contents_eq_between, contents_eq_between]
  exact Lexer.contents_trimmed _ _ [] [] cs (Nat.lt_succ_self _) (Nat.lt_succ_self _)

/-- A line end behind a text changes nothing in what it is cut into. -/
theorem contents_append_feed (cs : List Char) :
    (ofList (cs ++ ['\n'])).contents = (ofList cs).contents := by
  rw [contents_eq_between, contents_eq_between]
  exact Lexer.contents_feed _ _ [] cs (Nat.lt_succ_self _) (by simp)

end ClassScript
