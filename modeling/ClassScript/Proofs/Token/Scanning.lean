/-
# What lexing takes at one place

A declarative account of tokens and of what stands between them, and the proof that
one step of the lexer follows it. `Spelling` holds the texts that are tokens, `Gap`
the texts that separate tokens. At each place the lexer skips a gap (`skip_spec`) and
then takes the longest spelling there, or one of the two errors where there is none,
or meets a failure of the stream (`lexemeAt_scans`).

Key theorems: `skip_spec`, `lexemeAt_scans`, and `Numeric.reads`: the text of a number
always reads as one.
-/
import Mathlib.Data.List.TakeDrop
import ClassScript.Token.Lexer

namespace ClassScript

/-! ### Runs of characters in a stream -/

namespace CharStream

variable {p : Char → Bool} {c : Char} {s : CharStream}

@[simp] theorem ofList_nil : ofList [] = [] := rfl

@[simp] theorem ofList_cons (c : Char) (cs : List Char) : ofList (c :: cs) = .ok c :: ofList cs := rfl

@[simp] theorem ofList_append (cs ds : List Char) : ofList (cs ++ ds) = ofList cs ++ ofList ds :=
  List.map_append ..

@[simp] theorem length_ofList (cs : List Char) : (ofList cs).length = cs.length := List.length_map ..

theorem run_ok (h : p c) : run p (.ok c :: s) = (c :: (run p s).1, (run p s).2) := by
  simp [run, yields, h, Except.toOption]

theorem run_stop (h : p c = false) : run p (.ok c :: s) = ([], .ok c :: s) := by
  simp [run, yields, h]

/-- **A run is all that has the property at the front of the stream.** -/
theorem run_spec (p : Char → Bool) : ∀ s : CharStream,
    s = ofList (run p s).1 ++ (run p s).2 ∧ (∀ c ∈ (run p s).1, p c) ∧
      ∀ c rest, (run p s).2 = .ok c :: rest → p c = false
  | [] => by simp [run]
  | .error failure :: s => by simp [run, yields]
  | .ok c :: s => by
    obtain ⟨heq, hall, hstop⟩ := run_spec p s
    by_cases h : p c
    · rw [run_ok h]
      refine ⟨by simpa using heq, ?_, hstop⟩
      simpa [h] using hall
    · simp only [Bool.not_eq_true] at h
      simp [run_stop h, h]

/-- Characters with a property reach no further than the run of them does. -/
theorem length_le_of_front {rest : CharStream} (hrest : ∀ c s, rest = .ok c :: s → p c = false) :
    ∀ {cs ds : List Char}, ofList cs <+: ofList ds ++ rest → (∀ c ∈ cs, p c) →
      cs.length ≤ ds.length
  | [], _, _, _ => Nat.zero_le _
  | c :: cs, [], hp, hcs => by
    obtain ⟨s, hs⟩ := hp
    have hc := hrest c (ofList cs ++ s) (by simpa using hs.symm)
    simp [hcs c (by simp)] at hc
  | c :: cs, d :: ds, hp, hcs => by
    simp only [ofList_cons, List.cons_append, List.cons_prefix_cons] at hp
    have := length_le_of_front hrest hp.2 fun c hc => hcs c (List.mem_cons_of_mem _ hc)
    simpa using this

end CharStream

open CharStream

/-! ### Spellings -/

/-- At least one digit and nothing else. -/
def AllDigits (cs : List Char) : Prop := cs ≠ [] ∧ ∀ c ∈ cs, c.isDigit

/-- The texts of numbers: digits, and more of them behind a point, if there is one. -/
inductive Numeric : List Char → Prop
  | whole {ds : List Char} : AllDigits ds → Numeric ds
  | fraction {ds fs : List Char} : AllDigits ds → AllDigits fs → Numeric (ds ++ '.' :: fs)

/-- The texts that are tokens. -/
inductive Spelling : List Char → Prop
  | symbol (s : Symbol) : Spelling s.text.toList
  | name {c : Char} {cs : List Char} :
      Lexer.isNameStart c → (∀ d ∈ cs, Lexer.isNameChar d) → Spelling (c :: cs)
  | text {body : List Char} : '"' ∉ body → Spelling ('"' :: (body ++ ['"']))
  | number {cs : List Char} : Numeric cs → Spelling cs

/-- The token is what the characters `cs` stand for. A name is no keyword, a text constant stands
between quotes, and a number is what its text reads as. -/
def Token.SpelledBy (cs : List Char) : Token → Prop
  | .symbol s => cs = s.text.toList
  | .name s => cs = s.toList ∧ Symbol.ofWord? s = none
  | .text s => cs = '"' :: (s.toList ++ ['"'])
  | .number x => Decimal.Numeral.read (String.ofList cs) = .ok x
  | .endOfInput => False

theorem leadingDigits_append {ds : List Char} (rest : List Char) (hd : ∀ c ∈ ds, c.isDigit)
    (hr : ∀ c cs, rest = c :: cs → c.isDigit = false) :
    Decimal.leadingDigits (ds ++ rest) = (ds, rest) := by
  unfold Decimal.leadingDigits
  rw [List.span_eq_takeWhile_dropWhile, List.takeWhile_append_of_pos hd,
    List.dropWhile_append_of_pos hd]
  cases rest with
  | nil => simp
  | cons c cs => simp [hr c cs rfl]

theorem Numeric.readDigits {cs : List Char} (h : Numeric cs) :
    ∃ value, Decimal.readDigits cs = some value := by
  cases h with
  | whole hd =>
    have hspan := leadingDigits_append [] hd.2 (by simp)
    simp only [List.append_nil] at hspan
    simp [Decimal.readDigits, hspan, hd.1, Decimal.readExponent]
  | @fraction ds fs hd hf =>
    have hspan := leadingDigits_append ('.' :: fs) hd.2 (by simp)
    have hspan' := leadingDigits_append [] hf.2 (by simp)
    simp only [List.append_nil] at hspan'
    simp [Decimal.readDigits, hspan, hspan', hd.1, Decimal.readExponent]

theorem Numeric.head {cs : List Char} (h : Numeric cs) : ∃ d ds, cs = d :: ds ∧ d.isDigit := by
  have front : ∀ {ds : List Char}, AllDigits ds → ∃ d es, ds = d :: es ∧ d.isDigit := by
    intro ds hd
    cases ds with
    | nil => exact absurd rfl hd.1
    | cons d es => exact ⟨d, es, rfl, hd.2 d (by simp)⟩
  cases h with
  | whole hd => exact front hd
  | fraction hd _ =>
    obtain ⟨d, es, rfl, h⟩ := front hd
    exact ⟨d, _, rfl, h⟩

/-- **The text of a number always reads as one.** -/
theorem Numeric.reads {cs : List Char} (h : Numeric cs) :
    Decimal.Numeral.read (String.ofList cs) = .ok (Lexer.numberOf cs) := by
  obtain ⟨value, hv⟩ := h.readDigits
  obtain ⟨d, ds, rfl, hd⟩ := h.head
  have hminus : d ≠ '-' := by rintro rfl; simp at hd
  have hplus : d ≠ '+' := by rintro rfl; simp at hd
  have hp : Decimal.Numeral.parse (d :: ds) = .ok (.finite false value) := by
    simp [Decimal.Numeral.parse, hminus, hplus, Decimal.readUnsigned, hv]
  simp [Decimal.Numeral.read, Lexer.numberOf, hp, Except.map]

/-! ### The first character decides

The characters that begin a symbol, a text constant, a number and a name are different. -/

theorem Symbol.ofChar?_eq_some {c : Char} {s : Symbol} (h : Symbol.ofChar? c = some s) :
    s.text.toList = [c] ∧ Symbol.withEqual? c = none ∧ c ≠ '"' ∧ c.isDigit = false ∧
      Lexer.isNameStart c = false := by
  unfold Symbol.ofChar? at h
  split at h <;> cases h <;> decide

theorem Symbol.withEqual?_eq_some {c : Char} {alone joined : Symbol}
    (h : Symbol.withEqual? c = some (alone, joined)) :
    alone.text.toList = [c] ∧ joined.text.toList = [c, '='] ∧ Symbol.ofChar? c = none ∧ c ≠ '"' ∧
      c.isDigit = false ∧ Lexer.isNameStart c = false := by
  unfold Symbol.withEqual? at h
  split at h <;> cases h <;> decide

theorem Symbol.ofWord?_eq_some {word : String} {s : Symbol} (h : Symbol.ofWord? word = some s) :
    s.text = word := by
  simpa using List.find?_some h

theorem Lexer.isNameChar_of_start {c : Char} (h : Lexer.isNameStart c) : Lexer.isNameChar c := by
  simp only [Lexer.isNameStart, Bool.or_eq_true, Lexer.isNameChar, Char.isAlphanum] at h ⊢
  rcases h with h | h
  · exact .inl (.inl h)
  · exact .inr h

theorem Lexer.isNameStart_of_digit {c : Char} (h : c.isDigit) : Lexer.isNameStart c = false := by
  have hle : c.toNat ≤ 57 := (Char.isDigit_iff_toNat.mp h).2
  have hupper : c.isUpper = false := by
    refine decide_eq_false fun hc => ?_
    have : 65 ≤ c.toNat := UInt32.le_iff_toNat_le.mp hc.1
    omega
  have hlower : c.isLower = false := by
    have hlt : ¬ c.val ≥ 'a'.val := by
      intro hc
      have : 97 ≤ c.toNat := UInt32.le_iff_toNat_le.mp hc
      omega
    exact congrArg (· && decide (c.val ≤ 'z'.val)) (decide_eq_false hlt)
  have hscore : c ≠ '_' := by rintro rfl; simp at h
  show ((c.isUpper || c.isLower) || c == '_') = false
  simp [hupper, hlower, hscore]

/-- The characters of names lie between the digits and the small letters. -/
theorem Lexer.toNat_of_nameChar {c : Char} (h : isNameChar c = true) :
    48 ≤ c.toNat ∧ c.toNat ≤ 122 := by
  simp only [isNameChar, Char.isAlphanum, Bool.or_eq_true, beq_iff_eq] at h
  rcases h with (h | h) | rfl
  · have hcase : (c.isUpper || c.isLower) = true := h
    rcases Bool.or_eq_true_iff.mp hcase with h | h
    · obtain ⟨hlow, hhigh⟩ : c.val ≥ 'A'.val ∧ c.val ≤ 'Z'.val := of_decide_eq_true h
      have h65 : 65 ≤ c.toNat := UInt32.le_iff_toNat_le.mp hlow
      have h90 : c.toNat ≤ 90 := UInt32.le_iff_toNat_le.mp hhigh
      omega
    · obtain ⟨hlow, hhigh⟩ := Bool.and_eq_true_iff.mp h
      have h97 : 97 ≤ c.toNat := UInt32.le_iff_toNat_le.mp (of_decide_eq_true hlow)
      have h122 : c.toNat ≤ 122 := UInt32.le_iff_toNat_le.mp (of_decide_eq_true hhigh)
      omega
  · obtain ⟨h48, h57⟩ : 48 ≤ c.toNat ∧ c.toNat ≤ 57 := Char.isDigit_iff_toNat.mp h
    omega
  · decide

theorem Lexer.not_blank_of_nameChar {c : Char} (h : isNameChar c = true) :
    Text.isBlank c = false := by
  obtain ⟨hlow, hhigh⟩ := toNat_of_nameChar h
  simp only [Text.isBlank, Bool.or_eq_false_iff, Bool.and_eq_false_imp, decide_eq_true_eq,
    decide_eq_false_iff_not, beq_eq_false_iff_ne, ne_eq]
  omega

/-- What may follow the first character of a spelling. -/
inductive Spelling.Begins : Char → List Char → Prop
  | char {c : Char} {s : Symbol} : Symbol.ofChar? c = some s → Begins c []
  | equal {c : Char} {cs : List Char} {ss : Symbol × Symbol} :
      Symbol.withEqual? c = some ss → cs = [] ∨ cs = ['='] → Begins c cs
  | text {body : List Char} : '"' ∉ body → Begins '"' (body ++ ['"'])
  | number {c : Char} {cs : List Char} : c.isDigit → Numeric (c :: cs) → Begins c cs
  | name {c : Char} {cs : List Char} :
      Lexer.isNameStart c → (∀ d ∈ cs, Lexer.isNameChar d) → Begins c cs

theorem Symbol.begins {s : Symbol} {c : Char} {cs : List Char} (h : s.text.toList = c :: cs) :
    Spelling.Begins c cs := by
  cases s <;> obtain ⟨rfl, rfl⟩ := List.cons.inj h.symm <;>
    first
    | exact .char rfl
    | exact .equal rfl (.inl rfl)
    | exact .equal rfl (.inr rfl)
    | exact .name rfl (List.all_eq_true.mp rfl)

theorem Spelling.begins {cs : List Char} (h : Spelling cs) : ∃ c ds, cs = c :: ds ∧ Begins c ds := by
  cases h with
  | symbol s =>
    obtain ⟨c, ds, hs⟩ : ∃ c ds, s.text.toList = c :: ds := by cases s <;> exact ⟨_, _, rfl⟩
    exact ⟨c, ds, hs, Symbol.begins hs⟩
  | name hc hcs => exact ⟨_, _, rfl, .name hc hcs⟩
  | text hb => exact ⟨_, _, rfl, .text hb⟩
  | number hn =>
    obtain ⟨d, ds, rfl, hd⟩ := hn.head
    exact ⟨d, ds, rfl, .number hd hn⟩

/-! ### Longest spellings -/

/-- No spelling at the front of `taken` and `rest` is longer than `taken`. -/
def Longest (taken : List Char) (rest : CharStream) : Prop :=
  ∀ w, ofList w <+: ofList taken ++ rest → Spelling w → w.length ≤ taken.length

/-- No spelling stands at the front of the stream. -/
def Bare (s : CharStream) : Prop := ∀ w, ofList w <+: s → ¬ Spelling w

/-- It is enough to look at spellings with the right first character. -/
theorem Longest.of_begins {c : Char} {cs : List Char} {rest : CharStream}
    (h : ∀ w, ofList w <+: ofList cs ++ rest → Spelling.Begins c w → w.length ≤ cs.length) :
    Longest (c :: cs) rest := by
  intro w hw hs
  obtain ⟨d, ds, rfl, hb⟩ := hs.begins
  simp only [ofList_cons, List.cons_append, List.cons_prefix_cons, Except.ok.injEq] at hw
  obtain ⟨rfl, hw⟩ := hw
  simpa using h ds hw hb

theorem Bare.of_begins {c : Char} {s : CharStream}
    (h : ∀ w, ofList w <+: s → ¬ Spelling.Begins c w) : Bare (.ok c :: s) := by
  intro w hw hs
  obtain ⟨d, ds, rfl, hb⟩ := hs.begins
  simp only [ofList_cons, List.cons_prefix_cons, Except.ok.injEq] at hw
  obtain ⟨rfl, hw⟩ := hw
  exact h ds hw hb

section First

variable {c : Char} {cs : List Char}

theorem Spelling.Begins.of_char {s : Symbol} (h : Spelling.Begins c cs)
    (hc : Symbol.ofChar? c = some s) : cs = [] := by
  obtain ⟨-, heq, hq, hd, hn⟩ := Symbol.ofChar?_eq_some hc
  cases h with
  | char => rfl
  | equal h' => simp [heq] at h'
  | text => exact absurd rfl hq
  | number h' => simp [hd] at h'
  | name h' => simp [hn] at h'

theorem Spelling.Begins.of_equal {ss : Symbol × Symbol} (h : Spelling.Begins c cs)
    (hc : Symbol.withEqual? c = some ss) : cs = [] ∨ cs = ['='] := by
  obtain ⟨-, -, ho, hq, hd, hn⟩ := Symbol.withEqual?_eq_some hc
  cases h with
  | char h' => simp [ho] at h'
  | equal _ h' => exact h'
  | text => exact absurd rfl hq
  | number h' => simp [hd] at h'
  | name h' => simp [hn] at h'

theorem Spelling.Begins.of_quote (h : Spelling.Begins '"' cs) :
    ∃ body, cs = body ++ ['"'] ∧ '"' ∉ body := by
  cases h with
  | char h' => simp [Symbol.ofChar?] at h'
  | equal h' => simp [Symbol.withEqual?] at h'
  | text hb => exact ⟨_, rfl, hb⟩
  | number h' => simp at h'
  | name h' => exact absurd h' (by decide)

theorem Spelling.Begins.of_digit (h : Spelling.Begins c cs) (hc : c.isDigit) :
    Numeric (c :: cs) := by
  cases h with
  | char h' => simp [(Symbol.ofChar?_eq_some h').2.2.2.1] at hc
  | equal h' => simp [(Symbol.withEqual?_eq_some h').2.2.2.2.1] at hc
  | text => simp at hc
  | number _ hn => exact hn
  | name h' => simp [Lexer.isNameStart_of_digit hc] at h'

theorem Spelling.Begins.of_nameStart (h : Spelling.Begins c cs) (hc : Lexer.isNameStart c) :
    ∀ d ∈ cs, Lexer.isNameChar d := by
  cases h with
  | char h' => simp [(Symbol.ofChar?_eq_some h').2.2.2.2] at hc
  | equal h' => simp [(Symbol.withEqual?_eq_some h').2.2.2.2.2] at hc
  | text => exact absurd hc (by decide)
  | number h' => simp [Lexer.isNameStart_of_digit h'] at hc
  | name _ h' => exact h'

end First

theorem Numeric.shape {cs : List Char} (h : Numeric cs) :
    AllDigits cs ∨ ∃ ds fs, cs = ds ++ '.' :: fs ∧ AllDigits ds ∧ AllDigits fs := by
  cases h with
  | whole hd => exact .inl hd
  | fraction hd hf => exact .inr ⟨_, _, rfl, hd, hf⟩

/-- A number with a fraction has its point behind the run of digits. -/
theorem point_front {fs : List Char} {rest : CharStream}
    (hstop : ∀ c s, rest = .ok c :: s → c.isDigit = false) :
    ∀ {ds es : List Char}, (∀ d ∈ ds, d.isDigit) → (∀ e ∈ es, e.isDigit) →
      ofList (es ++ '.' :: fs) <+: ofList ds ++ rest →
      es = ds ∧ (.ok '.' :: ofList fs : CharStream) <+: rest
  | [], [], _, _, h => ⟨rfl, h⟩
  | d :: ds, [], hd, _, h => by
    simp only [List.nil_append, ofList_cons, List.cons_append, List.cons_prefix_cons,
      Except.ok.injEq] at h
    have := hd d (by simp)
    simp [← h.1] at this
  | [], e :: es, _, he, h => by
    obtain ⟨t, ht⟩ := h
    have := hstop e (ofList (es ++ '.' :: fs) ++ t) (by simpa using ht.symm)
    simp [he e (by simp)] at this
  | d :: ds, e :: es, hd, he, h => by
    simp only [ofList_cons, List.cons_append, List.cons_prefix_cons, Except.ok.injEq] at h
    obtain ⟨rfl, h⟩ := h
    obtain ⟨rfl, hp⟩ := point_front hstop (fun d hd' => hd d (List.mem_cons_of_mem _ hd'))
      (fun e he' => he e (List.mem_cons_of_mem _ he')) h
    exact ⟨rfl, hp⟩

/-- A number that is not continued by a digit, nor by a point and a digit, is the longest. -/
theorem Longest.whole {ds : List Char} {rest : CharStream} (hd : AllDigits ds)
    (hstop : ∀ c s, rest = .ok c :: s → c.isDigit = false)
    (hpoint : ∀ d s, rest = .ok '.' :: .ok d :: s → d.isDigit = false) : Longest ds rest := by
  obtain ⟨c, cs, rfl⟩ := List.exists_cons_of_ne_nil hd.1
  apply Longest.of_begins
  intro w hw hb
  have hw' : ofList (c :: w) <+: ofList (c :: cs) ++ rest := by simpa using hw
  have hlen : (c :: w).length ≤ (c :: cs).length := by
    rcases (hb.of_digit (hd.2 c (by simp))).shape with h | ⟨es, fs, heq, he, hf⟩
    · exact length_le_of_front hstop hw' h.2
    · rw [heq] at hw'
      obtain ⟨rfl, hp⟩ := point_front hstop hd.2 he.2 hw'
      obtain ⟨f, fs, rfl⟩ := List.exists_cons_of_ne_nil hf.1
      obtain ⟨t, ht⟩ := hp
      have := hpoint f (ofList fs ++ t) (by simpa using ht.symm)
      simp [hf.2 f (by simp)] at this
  simpa using hlen

/-- A number with a fraction is the longest if no digit follows. -/
theorem Longest.fraction {ds fs : List Char} {rest : CharStream} (hd : AllDigits ds)
    (hstop : ∀ c s, rest = .ok c :: s → c.isDigit = false) :
    Longest (ds ++ '.' :: fs) rest := by
  obtain ⟨c, cs, rfl⟩ := List.exists_cons_of_ne_nil hd.1
  rw [List.cons_append]
  apply Longest.of_begins
  intro w hw hb
  have hw' : ofList (c :: w) <+: ofList (c :: cs) ++ (.ok '.' :: (ofList fs ++ rest)) := by
    simpa using hw
  have hdot : ∀ d s, (.ok '.' :: (ofList fs ++ rest) : CharStream) = .ok d :: s → d.isDigit = false := by
    rintro d s ⟨⟩
    rfl
  have hlen : (c :: w).length ≤ (c :: cs).length + 1 + fs.length := by
    rcases (hb.of_digit (hd.2 c (by simp))).shape with h | ⟨es, fs', heq, he, hf'⟩
    · have := length_le_of_front hdot hw' h.2
      omega
    · rw [heq] at hw'
      obtain ⟨rfl, hp⟩ := point_front hdot hd.2 he.2 hw'
      simp only [List.cons_prefix_cons, true_and] at hp
      have := length_le_of_front hstop hp hf'.2
      rw [heq]
      simp only [List.length_append, List.length_cons] at *
      omega
  simp only [List.length_append, List.length_cons] at *
  omega

/-! ### Gaps -/

/-- The texts that separate tokens: blank characters, and comments with the end of their line. The
last gap of a text may end in a comment that goes on to the end. -/
inductive Gap (last : Bool) : List Char → Prop
  | nil : Gap last []
  | blank {c : Char} {cs : List Char} : Text.isBlank c → Gap last cs → Gap last (c :: cs)
  | comment {cs : List Char} (body : List Char) :
      '\n' ∉ body → Gap last cs → Gap last ('/' :: '/' :: (body ++ '\n' :: cs))
  | unended {body : List Char} : last = true → '\n' ∉ body → Gap last ('/' :: '/' :: body)

/-- A comment may hold any other character. -/
theorem Gap.comment_cons {last : Bool} {c : Char} {cs : List Char} (hc : c ≠ '\n')
    (h : Gap last ('/' :: '/' :: cs)) : Gap last ('/' :: '/' :: c :: cs) := by
  cases h with
  | blank h _ => exact absurd h (by decide)
  | comment body hb hg => exact .comment (c :: body) (by simp [hb, hc.symm]) hg
  | unended hl hb => exact .unended hl (by simp [hb, hc.symm])

/-- A lexeme or a failure can begin at the front of the stream: no gap does. -/
def AtLexeme (s : CharStream) : Prop :=
  Lexer.atComment s = false ∧ ∀ c rest, s = .ok c :: rest → Text.isBlank c = false

namespace Lexer

variable {c : Char} {s : CharStream} {index line : Nat}

theorem atComment_iff : atComment s = true ↔ ∃ rest, s = .ok '/' :: .ok '/' :: rest := by
  unfold atComment
  split
  next rest => simp
  next h => simpa using h

/-- Nothing is skipped in front of a lexeme or a failure, nor at the end. -/
theorem skip_stop (h : AtLexeme s) : skip false index line s = ⟨s, index, line⟩ := by
  unfold skip
  split
  · rfl
  · rfl
  next c s => simp [h.1, h.2 c s rfl]

/-- **Skipping takes a gap, and as much of it as there is.** The slashes of a comment that has
begun are put in front of what is skipped of it. -/
theorem skip_spec : ∀ (s : CharStream) (inComment : Bool) (index line : Nat),
    ∃ gap rest last, s = ofList gap ++ rest ∧
      skip inComment index line s = ⟨rest, index + gap.length, gap.foldl lineAfter line⟩ ∧
      (if inComment then Gap last ('/' :: '/' :: gap) else Gap last gap) ∧
      (last = true → ∀ c s', rest ≠ .ok c :: s') ∧ AtLexeme rest
  | [], inComment, index, line => by
    refine ⟨[], [], true, rfl, by cases inComment <;> rfl, ?_, by simp, by simp [AtLexeme, atComment]⟩
    cases inComment
    · exact .nil
    · exact .unended rfl (by simp)
  | .error failure :: s, inComment, index, line => by
    refine ⟨[], .error failure :: s, true, rfl, by cases inComment <;> rfl, ?_, by simp,
      by simp [AtLexeme, atComment]⟩
    cases inComment
    · exact .nil
    · exact .unended rfl (by simp)
  | .ok c :: s, true, index, line => by
    obtain ⟨gap, rest, last, hs, hskip, hgap, hlast, hat⟩ :=
      skip_spec s (c ≠ '\n') (index + 1) (lineAfter line c)
    refine ⟨c :: gap, rest, last, by simp [hs], ?_, ?_, hlast, hat⟩
    · rw [skip, if_pos rfl, hskip]
      simp only [List.length_cons, List.foldl_cons, Nat.add_assoc, Nat.add_comm 1]
    · by_cases hc : c = '\n'
      · subst hc
        exact .comment [] (by simp) (by simpa using hgap)
      · exact .comment_cons hc (by simpa [hc] using hgap)
  | .ok c :: s, false, index, line => by
    by_cases hb : Text.isBlank c
    · obtain ⟨gap, rest, last, hs, hskip, hgap, hlast, hat⟩ :=
        skip_spec s false (index + 1) (lineAfter line c)
      refine ⟨c :: gap, rest, last, by simp [hs], ?_, .blank hb (by simpa using hgap), hlast, hat⟩
      rw [skip, if_neg (by simp), if_pos hb, hskip]
      simp only [List.length_cons, List.foldl_cons, Nat.add_assoc, Nat.add_comm 1]
    · by_cases hc : atComment (.ok c :: s)
      · obtain ⟨s', hs'⟩ := atComment_iff.mp hc
        have hlt : s'.length < (Except.ok c :: s : CharStream).length := by
          rw [hs', List.length_cons, List.length_cons]
          omega
        obtain ⟨gap, rest, last, hs, hskip, hgap, hlast, hat⟩ := skip_spec s' true (index + 2) line
        refine ⟨'/' :: '/' :: gap, rest, last, by simp [hs', hs], ?_, hgap, hlast, hat⟩
        have hsecond : skip true (index + 1) line (.ok '/' :: s') = skip true (index + 2) line s' := by
          simp [skip, lineAfter]
        obtain ⟨-, rfl⟩ := List.cons.inj hs'
        rw [skip, if_neg (by simp), if_neg hb, if_pos hc, hsecond, hskip]
        simp [lineAfter, Nat.add_assoc, Nat.add_comm 2]
      · have hat : AtLexeme (.ok c :: s) := by
          simp only [Bool.not_eq_true] at hb hc
          refine ⟨hc, ?_⟩
          rintro d t ⟨⟩
          exact hb
        exact ⟨[], .ok c :: s, false, rfl, skip_stop hat, .nil, by simp, hat⟩
termination_by s => s.length
decreasing_by
  · exact Nat.lt_succ_self _
  · exact Nat.lt_succ_self _
  · exact hlt

/-! ### One lexeme -/

/-- What the lexer does at a place `l` with the stream `s` ahead, where no gap begins: it takes the
token with the longest spelling, or one of the two errors where there is no spelling, or it meets
the end or a failure. -/
inductive Scans (l : Lexer) (s : CharStream) : Step → Prop
  | ended : s = [] → Scans l s (.last (.ok ⟨.endOfInput, .point l.index, l.line⟩))
  | token {t : Token} {taken : List Char} {rest : CharStream} :
      s = ofList taken ++ rest → Spelling taken → t.SpelledBy taken → Longest taken rest →
      Scans l s (l.token t taken rest)
  | unexpected {c : Char} {rest : CharStream} :
      s = .ok c :: rest → Bare s → Scans l s (l.wrong (.unexpectedChar c) [c] rest)
  | unterminated {body : List Char} :
      s = ofList ('"' :: body) → Bare s → Scans l s (l.wrong .unterminatedText ('"' :: body) [])
  | failed {n : Nat} {failure : ReadFailure} : .error failure ∈ s → Scans l s (l.failed n failure)

variable {l : Lexer}

/-- A token that needs a look at what follows meets the failure there, if there is one. -/
theorem Scans.tokenBefore {t : Token} {taken : List Char} {rest : CharStream}
    (hs : s = ofList taken ++ rest) (hsp : Spelling taken) (ht : t.SpelledBy taken)
    (hl : Longest taken rest) : Scans l s (l.tokenBefore t taken rest) := by
  unfold Lexer.tokenBefore
  split
  next failure hf =>
    refine .failed ?_
    cases rest with
    | nil => simp [failure?] at hf
    | cons x rest => cases x <;> simp_all [failure?]
  next => exact .token hs hsp ht hl

theorem text_scans (l : Lexer) (s : CharStream) : Scans l (.ok '"' :: s) (l.text s) := by
  obtain ⟨hs, hbody, hstop⟩ := run_spec (· ≠ '"') s
  unfold text
  generalize hrun : run (· ≠ '"') s = r at *
  obtain ⟨body, rest⟩ := r
  have hq : '"' ∉ body := fun h => by simpa using hbody _ h
  dsimp only at *
  match rest, hs, hstop with
  | [], hs, _ =>
    refine .unterminated (by simp [hs]) (Bare.of_begins ?_)
    intro w hw hb
    obtain ⟨body', rfl, -⟩ := hb.of_quote
    have hmem : Except.ok '"' ∈ s := hw.subset (by simp)
    simp only [hs, ofList, List.append_nil, List.mem_map, Except.ok.injEq, exists_eq_right] at hmem
    exact hq hmem
  | .error failure :: rest, hs, _ => exact .failed (by simp [hs])
  | .ok c :: rest, hs, hstop =>
    have hc : c = '"' := by simpa using hstop c rest rfl
    subst hc
    refine .token (by simp [hs]) (by simpa using Spelling.text hq) (by simp [Token.SpelledBy]) ?_
    rw [List.cons_append]
    apply Longest.of_begins
    intro w hw hb
    obtain ⟨body', rfl, hq'⟩ := hb.of_quote
    have hpre : ofList body' <+: ofList body ++ .ok '"' :: rest := by
      refine List.IsPrefix.trans ?_ (show ofList (body' ++ ['"']) <+: _ by simpa using hw)
      simp
    have := length_le_of_front hstop hpre fun c hc => by
      simp only [ne_eq, decide_not, Bool.not_eq_true', decide_eq_false_iff_not]
      rintro rfl
      exact hq' hc
    simpa using this

theorem word_scans {c : Char} (hc : isNameStart c) (l : Lexer) (s : CharStream) :
    Scans l (.ok c :: s) (l.word (.ok c :: s)) := by
  obtain ⟨hs, hall, hstop⟩ := run_spec isNameChar s
  unfold word
  rw [run_ok (isNameChar_of_start hc)]
  generalize run isNameChar s = r at *
  obtain ⟨cs, rest⟩ := r
  dsimp only at *
  refine .tokenBefore (by simp [hs]) (.name hc hall) ?_ (.of_begins ?_)
  · unfold wordToken
    split
    next k hk => simp [Token.SpelledBy, Symbol.ofWord?_eq_some hk]
    next hk => exact ⟨by simp, hk⟩
  · intro w hw hb
    exact length_le_of_front hstop hw (hb.of_nameStart hc)

theorem number_scans {c : Char} (hc : c.isDigit) (l : Lexer) (s : CharStream) :
    Scans l (.ok c :: s) (l.number (.ok c :: s)) := by
  obtain ⟨hs, hall, hstop⟩ := run_spec Char.isDigit s
  unfold number
  rw [run_ok hc]
  generalize run Char.isDigit s = r at *
  obtain ⟨cs, rest⟩ := r
  have hd : AllDigits (c :: cs) := ⟨by simp, by simpa [hc] using hall⟩
  dsimp only at *
  split
  next failure rest => exact .failed (by simp [hs])
  next d rest =>
    split
    next hdig =>
      obtain ⟨hs', hall', hstop'⟩ := run_spec Char.isDigit rest
      rw [run_ok hdig]
      generalize run Char.isDigit rest = r at *
      obtain ⟨fs, rest'⟩ := r
      dsimp only at *
      have hf : AllDigits (d :: fs) := ⟨by simp, by simpa [hdig] using hall'⟩
      have hn : Numeric (c :: cs ++ '.' :: d :: fs) := .fraction hd hf
      exact .tokenBefore (by simp [hs, hs']) (.number hn) hn.reads (.fraction hd hstop')
    next hdig =>
      refine .token (by simp [hs]) (.number (.whole hd)) (Numeric.whole hd).reads ?_
      exact .whole hd hstop (by rintro e s ⟨⟩; simpa using hdig)
  next hne hne' =>
    refine .tokenBefore (by simp [hs]) (.number (.whole hd)) (Numeric.whole hd).reads ?_
    exact .whole hd hstop (by rintro e s rfl; exact absurd rfl (hne' e s))

theorem lexemeAt_scans (l : Lexer) (c : Char) (s : CharStream) :
    Scans l (.ok c :: s) (l.lexemeAt c s) := by
  unfold lexemeAt
  split
  next symbol hsym =>
    obtain ⟨htext, -⟩ := Symbol.ofChar?_eq_some hsym
    refine .token (by simp) (htext ▸ .symbol symbol) htext.symm (.of_begins ?_)
    intro w _ hb
    simp [hb.of_char hsym]
  next hsym =>
    split
    next alone joined heq =>
      obtain ⟨halone, hjoined, -⟩ := Symbol.withEqual?_eq_some heq
      split
      next s' =>
        refine .token (by simp) (hjoined ▸ .symbol joined) hjoined.symm (.of_begins ?_)
        intro w _ hb
        rcases hb.of_equal heq with rfl | rfl <;> simp
      next hne =>
        refine .tokenBefore (by simp) (halone ▸ .symbol alone) halone.symm (.of_begins ?_)
        intro w hw hb
        rcases hb.of_equal heq with rfl | rfl
        · simp
        · obtain ⟨t, ht⟩ := hw
          exact absurd ht.symm (hne t)
    next heq =>
      split
      next hq => exact hq ▸ text_scans l s
      next hq =>
        split
        next hd => exact number_scans hd l s
        next hd =>
          split
          next hn => exact word_scans hn l s
          next hn =>
            refine .unexpected rfl (.of_begins ?_)
            intro w _ hb
            cases hb with
            | char h => simp [hsym] at h
            | equal h => simp [heq] at h
            | text => exact hq rfl
            | number h => exact hd h
            | name h => exact hn h

/-- Behind the gap, a step scans. -/
theorem step_scans (l : Lexer) :
    Scans (skip false l.index l.line l.rest) (skip false l.index l.line l.rest).rest l.step := by
  unfold step
  generalize skip false l.index l.line l.rest = here
  obtain ⟨rest, index, line⟩ := here
  dsimp only
  split
  next => exact .ended rfl
  next failure s => exact .failed (by simp)
  next failure s => exact .failed (by simp)
  next c s _ => exact lexemeAt_scans _ c s

/-- **One step takes a gap and then scans.** -/
theorem step_spec (l : Lexer) : ∃ gap rest last, l.rest = ofList gap ++ rest ∧ Gap last gap ∧
    (last = true → ∀ c s, rest ≠ .ok c :: s) ∧ Scans (l.past gap rest) rest l.step := by
  obtain ⟨gap, rest, last, hs, hskip, hgap, hlast, -⟩ := skip_spec l.rest false l.index l.line
  have hscan := l.step_scans
  rw [hskip] at hscan
  exact ⟨gap, rest, last, hs, hgap, hlast, hscan⟩

end Lexer
end ClassScript
