/-
# An input has the tokens that were typed

The interactive loop takes the blank characters off the ends of the lines that it reads, and puts a
line end behind each. That takes off the same as taking the blank characters off in front of the line
ends of what was typed (`trimLines_join`), and puts a line end behind it, if the last line had none. So
every token is the one that was typed, but a text constant over more than one line is without the
blank characters in front of its line ends.

Key definitions: `Repl.whole?`, `Repl.Collects`.
Key theorems: `Repl.feed_whole`, `Repl.feed_not_whole`, `Repl.tokens_typed`.
-/
import ClassScript.Proofs.Text.Files
import ClassScript.Proofs.Token.Trimming

namespace ClassScript

open CharStream

/-! ### Lines of an input channel -/

/-- A line with its line end. -/
def Fed (s : String) : Prop := ∃ cs, '\n' ∉ cs ∧ s.toList = cs ++ ['\n']

theorem Utf8.encode_append (cs ds : List Char) : encode (cs ++ ds) = encode cs ++ encode ds :=
  List.flatMap_append

theorem Utf8.feed_mem_encode {cs : List Char} : 0x0a ∈ encode cs ↔ '\n' ∈ cs := by
  constructor
  · intro h
    obtain ⟨c, hc, hmem⟩ := List.mem_flatMap.mp h
    by_contra hnot
    refine Utf8.lineFeed_not_mem (c := c) ?_ hmem
    rintro rfl
    exact hnot hc
  · intro h
    exact List.mem_flatMap.mpr ⟨'\n', h, by decide⟩

/-- Where a line of octets is the encoding of a text, the text is a line. -/
theorem fed_of_encode {line : List UInt8} {s : String} (hline : 0x0a ∉ line)
    (h : line ++ [0x0a] = Utf8.encode s.toList) : Fed s := by
  have hmem : '\n' ∈ s.toList := Utf8.feed_mem_encode.mp (h ▸ by simp)
  obtain ⟨cs, rest, hs, hcs⟩ := List.eq_append_cons_of_mem hmem
  have hcs' : 0x0a ∉ Utf8.encode cs := fun h => hcs (Utf8.feed_mem_encode.mp h)
  have heq : line ++ 0x0a :: [] = Utf8.encode cs ++ 0x0a :: Utf8.encode rest := by
    rw [h, hs, Utf8.encode_append, Utf8.encode_cons]
    rfl
  obtain ⟨-, -, hrest⟩ := (List.append_cons_inj_of_notMem hline List.not_mem_nil).mp heq
  have hnil : rest = [] := by
    cases rest with
    | nil => rfl
    | cons c rest =>
      have hlength := congrArg List.length hrest
      have hpos := c.utf8Size_pos
      simp at hlength
      omega
  exact ⟨cs, hcs, by rw [hs, hnil]⟩

theorem InputLine.ofLine_eq_text {line : List UInt8} {s : String}
    (h : InputLine.ofLine line = .text s) : line = Utf8.encode s.toList := by
  unfold InputLine.ofLine at h
  split at h
  · cases h
  · split at h
    next cs hcs =>
      cases h
      rw [String.toList_ofList]
      exact Utf8.decode?_eq_some_iff.mp hcs
    next => cases h

/-- **A line of an input channel has one line end,** behind all else. Only the last may have none. -/
theorem Lines.fed {octets : List UInt8} {lines : List (List UInt8)} (h : Lines octets lines) :
    ∀ {before after : List InputLine} {s : String},
      lines.map InputLine.ofLine = before ++ .text s :: after →
      Fed s ∨ '\n' ∉ s.toList ∧ after = [] := by
  induction h with
  | none =>
    intro before after s heq
    simp at heq
  | @last line hne hline =>
    intro before after s heq
    cases before with
    | nil =>
      obtain ⟨htext, hafter⟩ := List.cons.inj heq
      refine .inr ⟨fun hmem => hline ?_, hafter.symm⟩
      rw [InputLine.ofLine_eq_text htext]
      exact Utf8.feed_mem_encode.mpr hmem
    | cons x before => simp at heq
  | @more line rest lines hline _ ih =>
    intro before after s heq
    cases before with
    | nil =>
      obtain ⟨htext, -⟩ := List.cons.inj heq
      exact .inl (fed_of_encode hline (InputLine.ofLine_eq_text htext))
    | cons x before => exact ih (List.cons.inj heq).2

/-! ### The text of an input -/

/-- The text that the loop makes of lines: each without the blank characters at its end. -/
def handed (lines : List String) : String :=
  String.join (lines.map fun s => Text.trimEnd s ++ "\n")

theorem handed_append (lines : List String) (s : String) :
    handed (lines ++ [s]) = handed lines ++ Text.trimEnd s ++ "\n" := by
  simp [handed, String.append_assoc]

theorem Fed.toList_trimEnd {s : String} {cs : List Char} (h : s.toList = cs ++ ['\n']) :
    (Text.trimEnd s).toList = Text.dropBlankEnd cs := by
  simp [Text.trimEnd, h, Text.dropBlankEnd, Text.isBlank]

/-- What is taken off is what stands in front of line ends. -/
theorem trimLines_join {lines : List String} (h : ∀ s ∈ lines, Fed s) (rest : List Char) :
    Text.trimLines ((String.join lines).toList ++ rest) =
      (handed lines).toList ++ Text.trimLines rest := by
  induction lines with
  | nil => rfl
  | cons s lines ih =>
    obtain ⟨cs, hcs, hs⟩ := h s List.mem_cons_self
    have hrest := ih fun s hmem => h s (List.mem_cons_of_mem _ hmem)
    simp only [handed, List.map_cons, String.join_cons, String.toList_append] at hrest ⊢
    rw [hs, Fed.toList_trimEnd hs, List.append_assoc, List.append_assoc, List.singleton_append,
      Text.trimLines_line hcs, hrest]
    simp

/-- The text of an input is cut into what was typed, with the text constants trimmed. -/
theorem contents_handed {lines : List String} (h : ∀ s ∈ lines, Fed s) :
    (ofString (handed lines)).contents =
      (ofString (String.join lines)).contents.map (·.map Token.trimLines) := by
  have htrim := trimLines_join h []
  rw [List.append_nil, Text.trimLines, List.append_nil] at htrim
  rw [ofString, ofString, ← htrim, contents_trimLines]

/-- So is that of an input that ends with a line without a line end. -/
theorem contents_handed_last {lines : List String} {s : String} (h : ∀ s ∈ lines, Fed s)
    (hs : '\n' ∉ s.toList) : (ofString (handed (lines ++ [s]))).contents =
      (ofString (String.join (lines ++ [s]))).contents.map (·.map Token.trimLines) := by
  have htrim : Text.trimLines ((String.join (lines ++ [s])).toList ++ ['\n']) =
      (handed (lines ++ [s])).toList := by
    have hjoin := trimLines_join h (s.toList ++ ['\n'])
    rw [Text.trimLines_line hs] at hjoin
    simpa [handed, Text.trimLines, Text.trimEnd] using hjoin
  rw [ofString, ofString, ← htrim, contents_trimLines, contents_append_feed]

/-- Text constants without blank characters in front of line ends are all that stays the same. -/
theorem map_trimLines_eq_self_iff {xs : List (Except LexProblem Token)} :
    xs.map (·.map Token.trimLines) = xs ↔ ∀ s, .ok (.text s) ∈ xs →
      ∀ front c rest, s.toList = front ++ c :: '\n' :: rest → Text.isBlank c = true → c = '\n' := by
  have hself : xs.map (·.map Token.trimLines) = xs ↔ ∀ x ∈ xs, x.map Token.trimLines = x := by
    conv => lhs; rhs; rw [← List.map_id xs]
    exact List.map_inj_left
  rw [hself]
  refine ⟨fun h s hs => Text.trimLines_eq_self_iff.mp ?_, fun h x hx => ?_⟩
  · have heq := Token.text.inj (Except.ok.inj (h _ hs))
    rw [← String.toList_ofList (l := Text.trimLines s.toList), heq]
  · match x with
    | .error e => rfl
    | .ok (.text s) =>
      have htrim := Text.trimLines_eq_self_iff.mpr (h s hx)
      simp [Except.map, Token.trimLines, htrim]
    | .ok (.symbol s) => rfl
    | .ok (.name s) => rfl
    | .ok (.number x) => rfl
    | .ok .endOfInput => rfl

namespace Repl

/-- The text that is run on a line, if one is. -/
def whole? (r : Repl) : InputLine → Option String
  | .text s =>
    let line := Text.trimEnd s
    if line.isEmpty then if r.input.isEmpty then none else some r.input
    else if line = "quit" then none
    else if isIncomplete (r.input ++ line ++ "\n") then none
    else some (r.input ++ line ++ "\n")
  | _ => none

variable {r r' : Repl} {line : InputLine} {s input : String}

theorem feed_whole (f : Nat) (h : r.whole? line = some input) :
    r.feed f line = submit f { r with input } := by
  unfold whole? at h
  split at h
  next s =>
    unfold feed
    dsimp only at h ⊢
    split_ifs at h ⊢ with hblank hempty hquit hincomplete
    · cases h
      rfl
    · cases h
      rfl
  next => cases h

/-- Where no text is run, nothing is. -/
theorem feed_not_whole (f : Nat) (h : r.whole? line = none) :
    r.feed f line = r.feed 0 line ∧ ∀ r', (r.feed f line).2 = some r' → r'.session = r.session := by
  cases line with
  | ended => exact ⟨rfl, by simp [feed]⟩
  | malformed => exact ⟨rfl, fun r' hr' => Option.some.inj hr' ▸ rfl⟩
  | text s =>
    unfold whole? at h
    unfold feed
    dsimp only at h ⊢
    split_ifs at h ⊢ with hblank hempty hquit hincomplete
    · exact ⟨rfl, fun r' hr' => Option.some.inj hr' ▸ rfl⟩
    · exact ⟨rfl, by simp⟩
    · exact ⟨rfl, fun r' hr' => Option.some.inj hr' ▸ rfl⟩

/-- From a state without input on, the loop has read some lines, and has collected those of them that
are text for one input. -/
inductive Collects (f : Nat) (session : Session) : List InputLine → List String → Repl → Prop
  | none : Collects f session [] [] { session }
  | line {ls : List InputLine} {typed : List String} {r r' : Repl} {s : String} {shown : Transcript} :
      Collects f session ls typed r → Text.trimEnd s ≠ "" → Text.trimEnd s ≠ "quit" →
      r.whole? (.text s) = none → r.feed f (.text s) = (shown, some r') →
      Collects f session (ls ++ [.text s]) (typed ++ [s]) r'
  | malformed {ls : List InputLine} {typed : List String} {r r' : Repl} {shown : Transcript} :
      Collects f session ls typed r → r.feed f .malformed = (shown, some r') →
      Collects f session (ls ++ [.malformed]) typed r'

variable {f : Nat} {session : Session} {ls : List InputLine} {typed : List String}

/-- Lines are collected as long as the input is incomplete. -/
theorem Collects.incomplete (h : Collects f session ls typed r) (hblank : Text.trimEnd s ≠ "")
    (hquit : Text.trimEnd s ≠ "quit")
    (hincomplete : isIncomplete (r.input ++ Text.trimEnd s ++ "\n") = true) :
    Collects f session (ls ++ [.text s]) (typed ++ [s])
      { r with input := r.input ++ Text.trimEnd s ++ "\n" } := by
  have hwhole : r.whole? (.text s) = Option.none := by
    unfold whole?
    dsimp only
    rw [if_neg (by simpa using hblank), if_neg hquit, if_pos hincomplete]
  have hfeed : r.feed f (.text s) =
      ({}, some { r with input := r.input ++ Text.trimEnd s ++ "\n" }) := by
    unfold feed
    dsimp only
    rw [if_neg (by simpa using hblank), if_neg hquit, if_pos hincomplete]
  exact .line h hblank hquit hwhole hfeed

/-- What has been collected is the text made of the lines. -/
theorem Collects.eq_handed (h : Collects f session ls typed r) : r = ⟨session, handed typed⟩ := by
  induction h with
  | none => rfl
  | @line ls typed r r' s shown _ hblank hquit hwhole hfeed ih =>
    subst ih
    unfold whole? at hwhole
    unfold feed at hfeed
    dsimp only at hwhole hfeed
    rw [if_neg (by simpa using hblank), if_neg hquit] at hwhole hfeed
    split_ifs at hwhole hfeed with hincomplete
    obtain ⟨-, hr'⟩ := Prod.mk.inj hfeed
    rw [handed_append, ← Option.some.inj hr']
  | malformed _ hfeed ih =>
    obtain ⟨-, hr'⟩ := Prod.mk.inj hfeed
    rw [← Option.some.inj hr', ih]

theorem Collects.mem (h : Collects f session ls typed r) : ∀ s ∈ typed, .text s ∈ ls := by
  induction h with
  | none => simp
  | line _ _ _ _ _ ih =>
    intro s hs
    rcases List.mem_append.mp hs with hs | hs
    · exact List.mem_append_left _ (ih s hs)
    · obtain rfl := List.mem_singleton.mp hs
      simp
  | malformed _ _ ih => exact fun s hs => List.mem_append_left _ (ih s hs)

/-- The text that is run is made of the lines that belong to it. -/
theorem Collects.whole (h : Collects f session ls typed r)
    (hwhole : r.whole? (.text s) = some input) :
    input = handed (if Text.trimEnd s = "" then typed else typed ++ [s]) := by
  obtain rfl := h.eq_handed
  unfold whole? at hwhole
  dsimp only at hwhole
  split_ifs at hwhole with hblank hempty hquit hincomplete
  · rw [if_pos (String.isEmpty_iff.mp hblank)]
    exact (Option.some.inj hwhole).symm
  · rw [if_neg (by simpa using hblank), handed_append]
    exact (Option.some.inj hwhole).symm

/-- The lines of an input have line ends, but for the last one of the channel. -/
theorem Collects.fed {octets : List UInt8} {before after : List InputLine}
    (h : Collects f session ls typed r)
    (hchannel : InputLine.ofBytes octets = before ++ ls ++ .text s :: after) :
    (∀ s ∈ typed, Fed s) ∧ (Fed s ∨ '\n' ∉ s.toList) := by
  have hlines := lines_byteLines octets
  refine ⟨fun s' hs' => ?_, (hlines.fed hchannel).imp_right And.left⟩
  obtain ⟨front, behind, hls⟩ := List.append_of_mem (h.mem s' hs')
  have hplace : (byteLines octets).map InputLine.ofLine =
      (before ++ front) ++ .text s' :: (behind ++ .text s :: after) := by
    rw [← InputLine.ofBytes, hchannel, hls]
    simp
  -- another line follows, so this is not the last one
  exact (hlines.fed hplace).resolve_right fun h => by simp at h

/-- **An input has the tokens that were typed, with the text constants trimmed.** Lines of an input
channel are read, none of them blank and none `quit`, and collected for one input. Where a line ends
the input (a blank one, which does not belong to it, or one that makes it whole), a text is run. The
tokens and lexical problems of that text are those of the lines as they were typed, with their line
ends, but that each text constant is without the blank characters in front of its line ends. So they
are the same if and only if no text constant has such characters. -/
theorem tokens_typed {octets : List UInt8} {before after : List InputLine}
    (hchannel : InputLine.ofBytes octets = before ++ ls ++ .text s :: after)
    (hread : Collects f session ls typed r) (hwhole : r.whole? (.text s) = some input) :
    let lines := if Text.trimEnd s = "" then typed else typed ++ [s]
    let text := String.join lines
    r.feed f (.text s) = submit f ⟨session, input⟩ ∧
    (ofString input).contents = (ofString text).contents.map (·.map Token.trimLines) ∧
    ((ofString input).contents = (ofString text).contents ↔
      ∀ s, .ok (.text s) ∈ (ofString text).contents →
        ∀ front c rest, s.toList = front ++ c :: '\n' :: rest → Text.isBlank c = true → c = '\n') := by
  intro lines text
  obtain ⟨htyped, hlast⟩ := hread.fed hchannel
  have hcontents : (ofString input).contents = (ofString text).contents.map (·.map Token.trimLines) := by
    rw [hread.whole hwhole]
    by_cases hblank : Text.trimEnd s = ""
    · simp only [text, lines, if_pos hblank]
      exact contents_handed htyped
    · simp only [text, lines, if_neg hblank]
      rcases hlast with hfed | hunfed
      · refine contents_handed fun s' hs' => ?_
        rcases List.mem_append.mp hs' with hmem | hmem
        · exact htyped s' hmem
        · obtain rfl := List.mem_singleton.mp hmem
          exact hfed
      · exact contents_handed_last htyped hunfed
  refine ⟨?_, hcontents, ?_⟩
  · rw [feed_whole f hwhole, hread.eq_handed]
  · rw [hcontents]
    exact map_trimLines_eq_self_iff

/-- A comment with blank characters behind it, and no line end behind the second line. -/
theorem tokens_typed_comment :
    InputLine.ofBytes (Utf8.encode "print (nil // one \t\n); ".toList) =
        [.text "print (nil // one \t\n", .text "); "] ∧
      (ofString "print (nil // one\n);\n").contents =
        (ofString "print (nil // one \t\n); ").contents := by
  have hchannel : InputLine.ofBytes (Utf8.encode "print (nil // one \t\n); ".toList) =
      [] ++ ([] ++ [.text "print (nil // one \t\n"]) ++ .text "); " :: [] := by rfl
  have hnone : Collects 0 (.initial fun _ => 0) [] [] { session := .initial fun _ => 0 } := .none
  have hread := hnone.incomplete (s := "print (nil // one \t\n") (by decide) (by decide)
    (by decide +kernel)
  have hwhole : whole? ⟨.initial fun _ => 0, "" ++ Text.trimEnd "print (nil // one \t\n" ++ "\n"⟩
      (.text "); ") = some "print (nil // one\n);\n" := by
    decide +kernel
  have hcontents := (tokens_typed hchannel hread hwhole).2.1
  have hjoin : String.join ([] ++ ["print (nil // one \t\n"] ++ ["); "]) =
      "print (nil // one \t\n); " := by rfl
  rw [if_neg (by decide), hjoin] at hcontents
  exact ⟨hchannel, hcontents.trans (by rfl)⟩

/-- **A text constant over two lines is not the one that was typed,** if the first line ends with
blank characters. -/
theorem tokens_typed_text_over_lines :
    ∃ r input, InputLine.ofBytes (Utf8.encode "print \"a  \nb\";\n".toList) =
        [.text "print \"a  \n", .text "b\";\n"] ∧
      Collects 0 (.initial fun _ => 0) [.text "print \"a  \n"] ["print \"a  \n"] r ∧
      r.whole? (.text "b\";\n") = some input ∧
      (ofString input).contents =
        [.ok (.symbol .printWord), .ok (.text "a\nb"), .ok (.symbol .semicolon), .ok .endOfInput] ∧
      (ofString "print \"a  \nb\";\n").contents =
        [.ok (.symbol .printWord), .ok (.text "a  \nb"), .ok (.symbol .semicolon), .ok .endOfInput] ∧
      (ofString input).contents ≠ (ofString "print \"a  \nb\";\n").contents := by
  have hinput : (ofString "print \"a\nb\";\n").contents =
      [.ok (.symbol .printWord), .ok (.text "a\nb"), .ok (.symbol .semicolon), .ok .endOfInput] := by
    rfl
  have htyped : (ofString "print \"a  \nb\";\n").contents =
      [.ok (.symbol .printWord), .ok (.text "a  \nb"), .ok (.symbol .semicolon), .ok .endOfInput] := by
    rfl
  have hnone : Collects 0 (.initial fun _ => 0) [] [] { session := .initial fun _ => 0 } := .none
  have hread := hnone.incomplete (s := "print \"a  \n") (by decide) (by decide) (by decide +kernel)
  have hwhole : whole? ⟨.initial fun _ => 0, "" ++ Text.trimEnd "print \"a  \n" ++ "\n"⟩
      (.text "b\";\n") = some "print \"a\nb\";\n" := by
    decide +kernel
  refine ⟨_, _, by rfl, hread, hwhole, hinput, htyped, ?_⟩
  rw [hinput, htyped]
  simp

end Repl
end ClassScript
