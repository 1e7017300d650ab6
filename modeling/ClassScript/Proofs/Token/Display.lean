/-
# Tokens are read back from the way they are shown

What is shown of tokens, with a separator between any two of them, lexes to these tokens.
A separator begins with a blank character, and at a blank character no token goes on: no
name, number or operator holds one (`lexemeAt_shown`). Behind it a separator is blank
characters and whole comments, and all of it is skipped (`skip_gap`).

Lexing gives symbols, names that are no keywords, text constants without a quote, and
numbers (`Token.Lexical`). A finite number that is not negative is shown as digits, and more
of them behind a point, if there is one (`numeric_writeFloat`). That these digits read back
as the number is assumed of the numbers shown (`Decimal.ReadsBack`).

Key theorem: `display_lexes_back`.
-/
import ClassScript.Proofs.Token.Joining

namespace ClassScript

open CharStream

/-! ### How numbers are shown -/

namespace Decimal

/-- The number is read back from the way it is shown. -/
def ReadsBack (x : Float) : Prop := Numeral.read (Layout.plain.writeFloat x) = .ok x

/-- The number is finite and has no minus sign. -/
def Unsigned (x : Float) : Prop := ∃ m q, Binary.ofFloat x = .finite false m q

theorem allDigits_toDigits (n : Nat) : AllDigits (Nat.toDigits 10 n) :=
  ⟨Nat.toDigits_ne_nil, fun _ hc => Nat.isDigit_of_mem_toDigits (by omega) (by omega) hc⟩

theorem isDigit_of_mem_zeros {n : Nat} {c : Char} (h : c ∈ List.replicate n '0') : c.isDigit := by
  rw [(List.mem_replicate.mp h).2]
  rfl

/-- Digits are laid out as digits, and more of them behind a point, if there is one. -/
theorem numeric_writePositional {digits : List Char} (h : AllDigits digits) (e : Int) :
    Numeric (Layout.plain.writePositional digits e) := by
  have hlen := List.length_pos_iff.mpr h.1
  unfold Layout.writePositional
  dsimp only
  split
  next => -- the point stands in front of all digits, with zeros between
    refine Numeric.fraction (show AllDigits ['0'] from ⟨by simp, by simp⟩)
      ⟨by simp [h.1], fun c hc => ?_⟩
    rcases List.mem_append.mp hc with hc | hc
    · exact isDigit_of_mem_zeros hc
    · exact h.2 c hc
  next hpoint =>
    split
    next => -- the point stands behind all digits
      refine .whole ⟨by simp [h.1], fun c hc => ?_⟩
      rcases List.mem_append.mp hc with hc | hc
      · rcases List.mem_append.mp hc with hc | hc
        · exact h.2 c hc
        · exact isDigit_of_mem_zeros hc
      · simp [Layout.plain] at hc
    next hneg =>
      refine .fraction ⟨?_, fun c hc => h.2 c (List.mem_of_mem_take hc)⟩
        ⟨?_, fun c hc => h.2 c (List.mem_of_mem_drop hc)⟩
      · rw [← List.length_pos_iff, List.length_take]
        omega
      · rw [← List.length_pos_iff, List.length_drop]
        omega

theorem numeric_write (d : Digits) : Numeric (Layout.plain.write d) := by
  unfold Layout.write
  split
  · exact .whole ⟨by simp [Layout.plain], by simp [Layout.plain]⟩
  · exact numeric_writePositional (allDigits_toDigits _) _

/-- **A finite number without a minus sign is shown as digits,** with a point between them or none. -/
theorem numeric_writeFloat {x : Float} (h : Unsigned x) :
    Numeric (Layout.plain.writeFloat x).toList := by
  obtain ⟨m, q, h⟩ := h
  simpa [Layout.writeFloat, h] using numeric_write (shortest m q)

end Decimal

/-! ### The tokens of texts -/

/-- The tokens that lexing gives in front of the end of the input. -/
inductive Token.Lexical : Token → Prop
  | symbol (s : Symbol) : Lexical (.symbol s)
  | name {c : Char} {cs : List Char} : Lexer.isNameStart c → (∀ d ∈ cs, Lexer.isNameChar d) →
      Symbol.ofWord? (String.ofList (c :: cs)) = none → Lexical (.name (String.ofList (c :: cs)))
  | text {body : List Char} : '"' ∉ body → Lexical (.text (String.ofList body))
  | number (x : Float) : Lexical (.number x)

/-- Some text has the token. -/
def Token.Lexed (t : Token) : Prop := ∃ (cs : List Char) (p : PlacedToken),
  .ok p ∈ (ofList cs).lexemes ∧ p.token = t

namespace Lexer

/-- The token that a step gives is one that lexing gives, if it is not the end of the input. -/
def Step.Lexical : Step → Prop
  | .more (.ok t) _ => t.token.Lexical
  | .last (.ok t) => t.token = .endOfInput
  | _ => True

variable {l : Lexer} {c : Char} {cs : List Char} {s : CharStream} {t : Token}

theorem tokenBefore_lexical {rest : CharStream} (h : t.Lexical) :
    (l.tokenBefore t cs rest).Lexical := by
  unfold tokenBefore
  split
  · trivial
  · exact h

theorem text_lexical (l : Lexer) (s : CharStream) : (l.text s).Lexical := by
  obtain ⟨-, hbody, -⟩ := run_spec (· ≠ '"') s
  unfold text
  dsimp only
  split
  · trivial
  · trivial
  · exact .text fun h => by simpa using hbody _ h

theorem number_lexical (l : Lexer) (s : CharStream) : (l.number s).Lexical := by
  unfold number
  dsimp only
  split
  · trivial
  · split
    · exact tokenBefore_lexical (.number _)
    · exact .number _
  · exact tokenBefore_lexical (.number _)

theorem word_lexical (hc : isNameStart c) : (l.word (.ok c :: s)).Lexical := by
  obtain ⟨-, hall, -⟩ := run_spec isNameChar s
  unfold word
  rw [run_ok (isNameChar_of_start hc)]
  refine tokenBefore_lexical ?_
  unfold wordToken
  split
  next k _ => exact .symbol k
  next hword => exact .name hc hall hword

theorem lexemeAt_lexical (l : Lexer) (c : Char) (s : CharStream) : (l.lexemeAt c s).Lexical := by
  unfold lexemeAt
  split
  · exact .symbol _
  split
  · split
    · exact .symbol _
    · exact tokenBefore_lexical (.symbol _)
  split
  · exact text_lexical l s
  split
  · exact number_lexical l _
  split
  next hn => exact word_lexical hn
  · trivial

theorem step_lexical (l : Lexer) : l.step.Lexical := by
  rw [step_eq]
  generalize skip false l.index l.line l.rest = here
  unfold stepHere
  split
  · rfl
  · trivial
  · trivial
  · exact lexemeAt_lexical _ _ _

theorem lexemes_lexical : ∀ (n : Nat) (l : Lexer) (p : PlacedToken), .ok p ∈ lexemes n l →
    p.token = .endOfInput ∨ p.token.Lexical
  | n + 1, l, p, hp => by
    have hstep := step_lexical l
    cases hs : l.step with
    | last x =>
      rw [lexemes_last hs, List.mem_singleton] at hp
      rw [hs, ← hp] at hstep
      exact .inl hstep
    | more x next =>
      rw [lexemes_more hs, List.mem_cons] at hp
      rcases hp with rfl | hp
      · rw [hs] at hstep
        exact .inr hstep
      · exact lexemes_lexical n next p hp

end Lexer

theorem Token.Lexed.lexical {t : Token} (h : t.Lexed) (ht : t ≠ .endOfInput) : t.Lexical := by
  obtain ⟨cs, p, hp, rfl⟩ := h
  exact (Lexer.lexemes_lexical _ _ p hp).resolve_left ht

/-! ### No token goes on at a blank character -/

/-- The text ends at the front of the stream, or a blank character stands there. -/
def Clear (s : CharStream) : Prop := s = [] ∨ ∃ c rest, s = .ok c :: rest ∧ Text.isBlank c

/-- Nothing but a blank character follows, if anything does. -/
theorem Clear.front {c : Char} {s rest : CharStream} (h : Clear s) (hs : s = .ok c :: rest) :
    Text.isBlank c := by
  rcases h with rfl | ⟨d, rest', rfl, hd⟩
  · cases hs
  · obtain ⟨heq, -⟩ := List.cons.inj hs
    exact Except.ok.inj heq ▸ hd

/-- A symbol is a character of its own, one with an equals sign behind it or without, or a word. -/
inductive Symbol.Written : Symbol → Prop
  | char {s : Symbol} {c : Char} : s.text.toList = [c] → Symbol.ofChar? c = some s → Written s
  | alone {s t : Symbol} {c : Char} : s.text.toList = [c] → Symbol.withEqual? c = some (s, t) →
      Written s
  | joined {s t : Symbol} {c : Char} : s.text.toList = [c, '='] →
      Symbol.withEqual? c = some (t, s) → Written s
  | word {s : Symbol} {c : Char} {cs : List Char} : s.text.toList = c :: cs →
      Lexer.isNameStart c → (∀ d ∈ cs, Lexer.isNameChar d) → Symbol.ofWord? s.text = some s →
      Written s

theorem Symbol.written (s : Symbol) : s.Written := by
  cases s <;>
    first
    | exact .char rfl rfl
    | exact .alone rfl rfl
    | exact .joined rfl rfl
    | exact .word rfl rfl (List.all_eq_true.mp rfl) rfl

/-- The token is shown in a way that it is read back from. -/
def Token.Shown (t : Token) : Prop :=
  t.Lexical ∧ ∀ x, t = .number x → Decimal.Unsigned x ∧ Decimal.ReadsBack x

namespace Lexer

variable {l : Lexer} {c : Char} {cs : List Char} {s : CharStream} {t : Token}

/-- A run is over where the property is. -/
theorem run_over {p : Char → Bool} (hcs : ∀ c ∈ cs, p c)
    (hs : ∀ c rest, s = .ok c :: rest → p c = false) : run p (ofList cs ++ s) = (cs, s) := by
  induction cs with
  | nil =>
    match s with
    | [] => rfl
    | .error failure :: rest => rfl
    | .ok c :: rest => exact run_stop (hs c rest rfl)
  | cons c cs ih =>
    rw [ofList_cons, List.cons_append, run_ok (hcs c (by simp)),
      ih fun d hd => hcs d (List.mem_cons_of_mem _ hd)]

theorem run_clear {p : Char → Bool} (hp : ∀ c, Text.isBlank c → p c = false) (hs : Clear s)
    (hcs : ∀ c ∈ cs, p c) : run p (ofList cs ++ s) = (cs, s) :=
  run_over hcs fun _ _ h => hp _ (hs.front h)

theorem tokenBefore_clear (hs : Clear s) : l.tokenBefore t cs s = l.token t cs s := by
  rcases hs with rfl | ⟨c, rest, rfl, -⟩ <;> rfl

theorem nameChar_of_blank (c : Char) (h : Text.isBlank c) : isNameChar c = false := by
  cases hc : isNameChar c with
  | false => rfl
  | true => simp [not_blank_of_nameChar hc] at h

theorem digit_of_blank (c : Char) (h : Text.isBlank c) : c.isDigit = false := by
  have hname := nameChar_of_blank c h
  simp only [isNameChar, Char.isAlphanum, Bool.or_eq_false_iff] at hname
  exact hname.1.2

theorem lexemeAt_word (hc : isNameStart c) : l.lexemeAt c s = l.word (.ok c :: s) := by
  unfold lexemeAt
  split
  next h => simp [(Symbol.ofChar?_eq_some h).2.2.2.2] at hc
  split
  next h => simp [(Symbol.withEqual?_eq_some h).2.2.2.2.2] at hc
  have hquote : c ≠ '"' := by rintro rfl; simp [isNameStart] at hc
  have hdigit : ¬ c.isDigit := fun h => by simp [isNameStart_of_digit h] at hc
  rw [if_neg hquote, if_neg hdigit, if_pos hc]

theorem lexemeAt_digit (hc : c.isDigit) : l.lexemeAt c s = l.number (.ok c :: s) := by
  unfold lexemeAt
  split
  next h => simp [(Symbol.ofChar?_eq_some h).2.2.2.1] at hc
  split
  next h => simp [(Symbol.withEqual?_eq_some h).2.2.2.2.1] at hc
  have hquote : c ≠ '"' := by rintro rfl; simp at hc
  rw [if_neg hquote, if_pos hc]

theorem word_clear (hc : isNameStart c) (hcs : ∀ d ∈ cs, isNameChar d) (hs : Clear s) :
    l.lexemeAt c (ofList cs ++ s) =
      l.token (wordToken (String.ofList (c :: cs))) (c :: cs) s := by
  rw [lexemeAt_word hc]
  unfold word
  rw [run_ok (isNameChar_of_start hc), run_clear nameChar_of_blank hs hcs]
  exact tokenBefore_clear hs

theorem number_clear (hcs : Numeric cs) (hs : Clear s) :
    l.number (ofList cs ++ s) = l.token (.number (numberOf cs)) cs s := by
  cases hcs with
  | whole hd =>
    have hrun := run_clear digit_of_blank hs hd.2
    refine (number_whole fun s' hs' => ?_).trans ?_
    · rw [hrun] at hs'
      exact absurd (hs.front hs') (by decide)
    · rw [hrun]
      exact tokenBefore_clear hs
  | @fraction ds fs hd hf =>
    obtain ⟨f, fs, rfl⟩ := List.exists_cons_of_ne_nil hf.1
    have hwhole : run Char.isDigit (ofList (ds ++ '.' :: f :: fs) ++ s) =
        (ds, ofList ('.' :: f :: fs) ++ s) := by
      rw [ofList_append, List.append_assoc]
      refine run_over hd.2 ?_
      rintro c rest ⟨⟩
      rfl
    have hfraction : run Char.isDigit (ofList (f :: fs) ++ s) = (f :: fs, s) :=
      run_clear digit_of_blank hs hf.2
    unfold number
    rw [hwhole]
    simp only [ofList_cons, List.cons_append, if_pos (hf.2 f (by simp))] at hfraction ⊢
    rw [hfraction]
    exact tokenBefore_clear hs

/-- What is shown of a symbol is this symbol, where no token goes on behind it. -/
theorem lexemeAt_symbol (s : Symbol) : ∃ c cs, s.text.toList = c :: cs ∧
    ∀ l rest, Clear rest →
      lexemeAt l c (ofList cs ++ rest) = l.token (.symbol s) (c :: cs) rest := by
  cases s.written with
  | @char c htext hc =>
    refine ⟨c, [], htext, fun l rest _ => ?_⟩
    simp [lexemeAt, hc]
  | @alone t c htext hc =>
    refine ⟨c, [], htext, fun l rest hrest => ?_⟩
    have hequal : ∀ rest', rest ≠ .ok '=' :: rest' :=
      fun rest' h => absurd (hrest.front h) (by decide)
    simp only [lexemeAt, (Symbol.withEqual?_eq_some hc).2.2.1, hc, ofList_nil, List.nil_append]
    exact tokenBefore_clear hrest
  | @joined t c htext hc =>
    refine ⟨c, ['='], htext, fun l rest _ => ?_⟩
    simp [lexemeAt, hc, (Symbol.withEqual?_eq_some hc).2.2.1]
  | @word c cs htext hc hcs hword =>
    refine ⟨c, cs, htext, fun l rest hrest => ?_⟩
    rw [word_clear hc hcs hrest, ← htext, String.ofList_toList]
    simp [wordToken, hword]

/-- A token that is shown is read back, where no token goes on behind it. -/
theorem lexemeAt_shown (ht : t.Shown) :
    ∃ c cs, t.display.toList = c :: cs ∧ Spelling (c :: cs) ∧
      ∀ l rest, Clear rest → lexemeAt l c (ofList cs ++ rest) = l.token t (c :: cs) rest := by
  obtain ⟨ht, hnumber⟩ := ht
  cases ht with
  | symbol s =>
    obtain ⟨c, cs, htext, hstep⟩ := lexemeAt_symbol s
    exact ⟨c, cs, htext, htext ▸ .symbol s, hstep⟩
  | @name c cs hc hcs hword =>
    refine ⟨c, cs, by simp [Token.display], .name hc hcs, fun l rest hrest => ?_⟩
    rw [word_clear hc hcs hrest, wordToken, hword]
  | @text body hbody =>
    refine ⟨'"', body ++ ['"'], by simp [Token.display], .text hbody, fun l rest _ => ?_⟩
    have hrun : run (· ≠ '"') (ofList body ++ .ok '"' :: rest) = (body, .ok '"' :: rest) :=
      run_over (fun c hc => decide_eq_true fun h => hbody (h ▸ hc)) (by rintro c rest' ⟨⟩; rfl)
    show l.text (ofList (body ++ ['"']) ++ rest) = _
    unfold text
    rw [ofList_append, List.append_assoc, ofList_cons, ofList_nil, List.singleton_append, hrun]
    rfl
  | number x =>
    obtain ⟨hx, hread⟩ := hnumber x rfl
    have hn := Decimal.numeric_writeFloat hx
    obtain ⟨d, ds, hd, hdigit⟩ := hn.head
    refine ⟨d, ds, hd, hd ▸ .number hn, fun l rest hrest => ?_⟩
    have hvalue := hn.reads.symm.trans ((congrArg _ String.ofList_toList).trans hread)
    rw [hd] at hn hvalue
    rw [lexemeAt_digit hdigit]
    refine (number_clear hn hrest).trans ?_
    rw [Except.ok.inj hvalue]

/-! ### Separators -/

theorem skip_comment {body : List Char} (hb : '\n' ∉ body) (index line : Nat) (s : CharStream) :
    skip true index line (ofList (body ++ ['\n']) ++ s) =
      skip false (index + (body ++ ['\n']).length) ((body ++ ['\n']).foldl lineAfter line) s := by
  induction body generalizing index line with
  | nil => rfl
  | cons c body ih =>
    have hc : c ≠ '\n' := fun h => hb (h ▸ List.mem_cons_self ..)
    have hrest := ih (fun h => hb (List.mem_cons_of_mem _ h)) (index + 1) (lineAfter line c)
    rw [List.cons_append, ofList_cons, List.cons_append, skip, if_pos rfl, decide_eq_true hc, hrest]
    simp only [List.length_cons, List.foldl_cons, Nat.add_assoc, Nat.add_comm 1]

/-- All of a gap is skipped. -/
theorem skip_gap {gap : List Char} (hg : Gap false gap) (hs : AtLexeme s) (index line : Nat) :
    skip false index line (ofList gap ++ s) =
      ⟨s, index + gap.length, gap.foldl lineAfter line⟩ := by
  induction hg generalizing index line with
  | nil => exact skip_stop hs
  | @blank c gap hc _ ih =>
    rw [ofList_cons, List.cons_append, skip, if_neg (by simp), if_pos hc, ih]
    simp only [List.length_cons, List.foldl_cons, Nat.add_assoc, Nat.add_comm 1]
  | @comment gap body hb _ ih =>
    have hcomment : ofList ('/' :: '/' :: (body ++ '\n' :: gap)) ++ s =
        .ok '/' :: .ok '/' :: (ofList (body ++ ['\n']) ++ (ofList gap ++ s)) := by simp
    have hslashes : skip false index line (ofList ('/' :: '/' :: (body ++ '\n' :: gap)) ++ s) =
        skip true (index + 2) line (ofList (body ++ ['\n']) ++ (ofList gap ++ s)) := by
      rw [hcomment]
      rfl
    rw [hslashes, skip_comment hb, ih]
    simp only [List.length_cons, List.length_append, List.foldl_cons, List.foldl_append, lineAfter,
      Lexer.mk.injEq, true_and]
    exact ⟨by simp; omega, rfl⟩
  | unended h => cases h

/-- No gap begins with a token. -/
theorem atLexeme_of_spelling (hsp : Spelling (c :: cs)) (hs : Clear s) :
    AtLexeme (ofList (c :: cs) ++ s) := by
  obtain ⟨d, ds, heq, hb⟩ := hsp.begins
  obtain ⟨rfl, rfl⟩ := List.cons.inj heq
  constructor
  · rw [Bool.eq_false_iff, ne_eq, atComment_iff]
    rintro ⟨rest, hrest⟩
    obtain ⟨hc, htail⟩ := List.cons.inj hrest
    obtain rfl := Except.ok.inj hc
    obtain rfl := hb.of_char (s := .slash) rfl
    exact absurd (hs.front htail) (by decide)
  · rintro d rest hrest
    obtain rfl := Except.ok.inj (List.cons.inj hrest).1
    cases hb with
    | @char _ s h =>
      unfold Symbol.ofChar? at h
      split at h <;> cases h <;> rfl
    | equal h =>
      unfold Symbol.withEqual? at h
      split at h <;> cases h <;> rfl
    | text => rfl
    | number h => exact not_blank_of_nameChar (by simp [isNameChar, Char.isAlphanum, h])
    | name h => exact not_blank_of_nameChar (isNameChar_of_start h)

/-- A step goes past a gap. -/
theorem step_gap {gap ahead : List Char} (before : List Char) (hg : Gap false gap)
    (hat : AtLexeme (ofList ahead)) :
    (between before (gap ++ ahead)).step = (between (before ++ gap) ahead).stepHere := by
  have hskip : skip false before.length (1 + lineEnds before) (ofList (gap ++ ahead)) =
      (between before (gap ++ ahead)).past gap (ofList ahead) := by
    rw [ofList_append, skip_gap hg hat]
    rfl
  rw [past_between] at hskip
  exact congrArg stepHere hskip

/-- **A token that is shown behind a gap is the next lexeme,** where no token goes on behind it. -/
theorem step_shown {gap more : List Char} (before : List Char) (hg : Gap false gap) (ht : t.Shown)
    (hmore : Clear (ofList more)) : ∃ p : PlacedToken, p.token = t ∧
      (between before (gap ++ (t.display.toList ++ more))).step =
        .more (.ok p) (between (before ++ gap ++ t.display.toList) more) := by
  obtain ⟨c, cs, hshown, hspelling, hstep⟩ := lexemeAt_shown ht
  have hat : AtLexeme (ofList (c :: cs ++ more)) := by
    rw [ofList_append]
    exact atLexeme_of_spelling hspelling hmore
  have hnext := past_between (before ++ gap) (c :: cs) more
  have hstep := hstep (between (before ++ gap) (c :: cs ++ more)) (ofList more) hmore
  rw [token, hnext, ← ofList_append] at hstep
  refine ⟨⟨t, ⟨(before ++ gap).length, (before ++ gap).length + (c :: cs).length⟩,
    1 + lineEnds (before ++ gap)⟩, rfl, ?_⟩
  rw [hshown, step_gap before hg hat]
  refine Eq.trans (stepHere_char fun _ failure s h => ?_) hstep
  exact error_not_mem_ofList (h ▸ List.mem_cons_self ..)

end Lexer

/-! ### Tokens with separators between them -/

/-- The text is a separator: a blank character, and blank characters and whole comments behind. -/
def Separates (cs : List Char) : Prop := ∃ c rest, cs = c :: rest ∧ Text.isBlank c ∧ Gap false rest

/-- What is shown of tokens, with the separators `gap 0`, `gap 1`, … between them. -/
def spaced (gap : Nat → List Char) : List Token → List Char
  | [] => []
  | [t] => t.display.toList
  | t :: u :: ts => t.display.toList ++ (gap 0 ++ spaced (fun i => gap (i + 1)) (u :: ts))

theorem Separates.gap {cs : List Char} (h : Separates cs) : Gap false cs := by
  obtain ⟨c, rest, rfl, hc, hrest⟩ := h
  exact .blank hc hrest

/-- Behind the first token stand a separator and the other tokens, or nothing. -/
theorem spaced_cons {gap : Nat → List Char} (hgap : ∀ i, Separates (gap i)) (t : Token)
    (ts : List Token) : ∃ lead gap', Gap false lead ∧ (∀ i, Separates (gap' i)) ∧
      Clear (ofList (lead ++ spaced gap' ts)) ∧
      spaced gap (t :: ts) = t.display.toList ++ (lead ++ spaced gap' ts) := by
  cases ts with
  | nil => exact ⟨[], gap, .nil, hgap, .inl rfl, (List.append_nil _).symm⟩
  | cons u ts =>
    refine ⟨gap 0, fun i => gap (i + 1), (hgap 0).gap, fun i => hgap (i + 1), .inr ?_, rfl⟩
    obtain ⟨c, rest, hrest, hc, -⟩ := hgap 0
    exact ⟨c, _, by rw [hrest]; rfl, hc⟩

namespace Lexer

theorem lexemes_spaced : ∀ (ts : List Token) (n : Nat) (before lead : List Char)
    (gap : Nat → List Char), (∀ t ∈ ts, t.Shown) → (∀ i, Separates (gap i)) → Gap false lead →
    (lead ++ spaced gap ts).length < n →
    ∃ placed : List PlacedToken,
      lexemes n (between before (lead ++ spaced gap ts)) = placed.map .ok ∧
      placed.map (·.token) = ts ++ [.endOfInput]
  | _, 0, _, _, _, _, _, _, hn => absurd hn (Nat.not_lt_zero _)
  | [], n + 1, before, lead, gap, _, _, hlead, _ =>
    ⟨[⟨.endOfInput, .point (before ++ lead).length, 1 + lineEnds (before ++ lead)⟩],
      lexemes_last (step_gap before hlead (show AtLexeme (ofList []) by
        simp [AtLexeme, atComment])), rfl⟩
  | t :: ts, n + 1, before, lead, gap, hts, hgap, hlead, hn => by
    obtain ⟨lead', gap', hlead', hgap', hclear, hspaced⟩ := spaced_cons hgap t ts
    obtain ⟨p, rfl, hstep⟩ := step_shown before hlead (hts t (by simp)) hclear
    obtain ⟨c, cs, hshown, -⟩ := lexemeAt_shown (hts p.token (by simp))
    rw [hspaced] at hn ⊢
    simp only [List.length_append, hshown, List.length_cons] at hn
    obtain ⟨placed, hplaced, htokens⟩ := lexemes_spaced ts n
      (before ++ lead ++ p.token.display.toList) lead' gap'
      (fun t ht => hts t (List.mem_cons_of_mem _ ht)) hgap' hlead'
      (by simp only [List.length_append]; omega)
    refine ⟨p :: placed, ?_, by simp [htokens]⟩
    rw [lexemes_more hstep, hplaced]
    rfl

end Lexer

/-- **Tokens are read back from the way they are shown.** The tokens may be any that a text has,
other than the end of the input, if the numbers among them are finite, have no minus sign, and each
is what its digits read back as. What is shown of them, with a separator between any two of them,
lexes without errors to these tokens and the end of the input. -/
theorem display_lexes_back (ts : List Token) (gap : Nat → List Char)
    (hts : ∀ t ∈ ts, t.Lexed ∧ t ≠ .endOfInput) (hfinite : ∀ x, .number x ∈ ts → Decimal.Unsigned x)
    (hread : ∀ x, .number x ∈ ts → Decimal.ReadsBack x) (hgap : ∀ i, Separates (gap i)) :
    ∃ placed : List PlacedToken, (ofList (spaced gap ts)).lexemes = placed.map .ok ∧
      placed.map (·.token) = ts ++ [.endOfInput] := by
  have hshown : ∀ t ∈ ts, t.Shown := by
    intro t ht
    obtain ⟨hlexed, hne⟩ := hts t ht
    exact ⟨hlexed.lexical hne, fun x hx => ⟨hfinite x (hx ▸ ht), hread x (hx ▸ ht)⟩⟩
  rw [lexemes_eq_between]
  exact Lexer.lexemes_spaced ts _ [] [] gap hshown hgap .nil (Nat.lt_succ_self _)

/-- Two slashes, a number and a text constant that looks like a comment, with comments between. -/
theorem display_lexes_back_slashes :
    ∃ placed : List PlacedToken,
      (ofList (spaced (fun _ => ['\n', '/', '/', '"', '\n'])
        [.symbol .slash, .symbol .slash, .number 1.5, .text "//"])).lexemes = placed.map .ok ∧
      placed.map (·.token) =
        [.symbol .slash, .symbol .slash, .number 1.5, .text "//", .endOfInput] := by
  have hvalue : Lexer.numberOf ['1', '.', '5'] = 1.5 := by decide +kernel
  have hslash : Token.Lexed (.symbol .slash) :=
    ⟨['/'], ⟨.symbol .slash, ⟨0, 1⟩, 1⟩, .head _, rfl⟩
  have hnumber : Token.Lexed (.number 1.5) :=
    ⟨['1', '.', '5'], ⟨.number (Lexer.numberOf ['1', '.', '5']), ⟨0, 3⟩, 1⟩, .head _,
      congrArg Token.number hvalue⟩
  have htext : Token.Lexed (.text "//") :=
    ⟨['"', '/', '/', '"'], ⟨.text "//", ⟨0, 4⟩, 1⟩, .head _, rfl⟩
  have honly : ∀ x, Token.number x ∈ [.symbol .slash, .symbol .slash, .number 1.5, .text "//"] →
      x = 1.5 := by simp
  refine display_lexes_back [.symbol .slash, .symbol .slash, .number 1.5, .text "//"] _
    ?_ ?_ ?_ ?_
  · simp [hslash, hnumber, htext]
  · intro x hx
    exact ⟨0x18000000000000, -52, by rw [honly x hx]; decide +kernel⟩
  · intro x hx
    have hshown : Decimal.Layout.plain.writeFloat 1.5 = "1.5" := by decide
    rw [honly x hx, Decimal.ReadsBack, hshown]
    rfl
  · exact fun _ => ⟨'\n', ['/', '/', '"', '\n'], rfl, rfl, .comment ['"'] (by simp) .nil⟩

end ClassScript
