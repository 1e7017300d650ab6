/-
# A file reads as its text

A file is read through a buffer that may end in the middle of a line or of a character, and a line
is decoded as soon as it has been read. Neither can be told from what is handed out: it is the
characters of each line that is UTF-8, a failure for each line that is not, and nothing behind the
last line. A line ends behind a line feed, and no other character has the octet of a line feed in
it, so where the whole is UTF-8, every line is, and their characters are those of the whole.

Key definitions: `Lines`, `LineYields`, `CharReader.ahead`.
Key theorems: `lines_byteLines`, `BufferedFile.byteLines_rest`, `CharReader.next_ahead`,
`file_reads_as_text`.
-/
import ClassScript.Session
import ClassScript.Proofs.Text.Utf8
import Mathlib.Data.List.Basic
import Mathlib.Data.List.TakeWhile

namespace ClassScript

open CharStream

variable {octets line rest : List UInt8} {lines : List (List UInt8)}

/-! ### Lines -/

/-- How octets are cut into lines: behind each line feed. Only the last line may have none. -/
inductive Lines : List UInt8 → List (List UInt8) → Prop
  | none : Lines [] []
  | last {line : List UInt8} : line ≠ [] → 0x0a ∉ line → Lines line [line]
  | more {line rest : List UInt8} {lines : List (List UInt8)} : 0x0a ∉ line → Lines rest lines →
      Lines (line ++ 0x0a :: rest) ((line ++ [0x0a]) :: lines)

theorem byteLines_cons (b : UInt8) (octets : List UInt8) :
    byteLines (b :: octets) =
      if b = 0x0a then [b] :: byteLines octets
      else match byteLines octets with
        | [] => [[b]]
        | line :: rest => (b :: line) :: rest := rfl

/-- `byteLines` cuts octets into lines. -/
theorem lines_byteLines (octets : List UInt8) : Lines octets (byteLines octets) := by
  induction octets with
  | nil => exact .none
  | cons b octets ih =>
    rw [byteLines_cons]
    generalize byteLines octets = lines at ih
    split_ifs with hb
    · subst hb
      exact Lines.more List.not_mem_nil ih
    · have hmem {line : List UInt8} (hline : 0x0a ∉ line) : 0x0a ∉ b :: line := by
        simp [Ne.symm hb, hline]
      cases ih with
      | none => exact .last (by simp) (hmem (by simp))
      | last hne hline => exact .last (by simp) (hmem hline)
      | more hline h => exact .more (hmem hline) h

/-- Octets without a line feed belong to the line behind them. -/
theorem byteLines_plain (hline : 0x0a ∉ line) (hne : line ≠ []) (octets : List UInt8) :
    byteLines (line ++ octets) = match byteLines octets with
      | [] => [line]
      | next :: lines => (line ++ next) :: lines := by
  induction line with
  | nil => exact absurd rfl hne
  | cons b line ih =>
    have hb : b ≠ 0x0a := fun h => hline (by simp [h])
    rw [List.cons_append, byteLines_cons, if_neg hb]
    cases line with
    | nil => rfl
    | cons b' line =>
      rw [ih (fun h => hline (List.mem_cons_of_mem _ h)) (by simp)]
      cases byteLines octets <;> rfl

theorem byteLines_feed (hline : 0x0a ∉ line) (octets : List UInt8) :
    byteLines (line ++ 0x0a :: octets) = (line ++ [0x0a]) :: byteLines octets := by
  by_cases hne : line = []
  · subst hne
    rfl
  · rw [byteLines_plain hline hne, byteLines_cons, if_pos rfl]

/-! ### One line of a file -/

namespace BufferedFile

variable (f : BufferedFile)

@[simp] theorem capacity_fill : f.fill.capacity = f.capacity := by
  unfold fill
  split <;> rfl

@[simp] theorem capacity_readLine : f.readLine.2.capacity = f.capacity := by
  fun_induction readLine f with
  | case1 f feed kept h => exact f.capacity_fill
  | case2 f h hnil => exact f.capacity_fill
  | case3 f _ b line hbuffer more ih => exact ih.trans f.capacity_fill

/-- A buffer with room is empty only at the end of the file. -/
theorem rest_eq_nil (hroom : 0 < f.capacity) (h : f.fill.buffer = []) : f.rest = [] := by
  unfold fill at h
  split at h
  · next hbuffer =>
    have hunread : f.unread = [] := (List.take_eq_nil_iff.mp h).resolve_left (by omega)
    rw [rest, List.isEmpty_iff.mp hbuffer, hunread, List.append_nil]
  · simp_all

/-- Through a buffer with room, what is taken is the next line, and nothing at the end. -/
theorem byteLines_rest (hroom : 0 < f.capacity) :
    byteLines f.rest =
      if f.readLine.1 = [] then [] else f.readLine.1 :: byteLines f.readLine.2.rest := by
  fun_induction readLine f with
  | case1 f feed kept h =>
    have hcut := List.takeWhile_append_dropWhile (p := (· ≠ 0x0a)) (l := f.fill.buffer)
    have hfeed := List.head?_dropWhile_not (· ≠ 0x0a) f.fill.buffer
    have hline : 0x0a ∉ f.fill.buffer.takeWhile (· ≠ 0x0a) := fun hmem => by
      have hne := List.mem_takeWhile_imp hmem
      exact absurd rfl (of_decide_eq_true hne)
    rw [h] at hcut hfeed
    obtain rfl : feed = 0x0a := by simpa using hfeed
    have hrest : f.rest =
        f.fill.buffer.takeWhile (· ≠ 0x0a) ++ 0x0a :: (kept ++ f.fill.unread) := by
      rw [← rest_fill f, rest, ← List.cons_append, ← List.append_assoc, hcut]
    rw [if_neg (by simp), hrest]
    exact byteLines_feed hline _
  | case2 f _ hnil =>
    rw [rest_eq_nil f hroom hnil]
    rfl
  | case3 f h b line hbuffer more ih =>
    have hline : 0x0a ∉ b :: line := fun hmem =>
      absurd rfl (of_decide_eq_true (List.dropWhile_eq_nil_iff.mp h _ (hbuffer ▸ hmem)))
    have hunread : byteLines f.fill.unread = _ := ih (by simpa using hroom)
    have hrest : more.1 ++ more.2.rest = f.fill.unread := readLine_rest _
    rw [if_neg (by simp), ← rest_fill f, rest, hbuffer, byteLines_plain hline (by simp), hunread]
    by_cases hmore : more.1 = []
    · rw [if_pos hmore, hmore, List.append_nil]
      rw [if_pos hmore] at hunread
      rw [hmore, List.nil_append] at hrest
      rw [hrest, hunread]
    · rw [if_neg hmore]

end BufferedFile

/-! ### What is handed out -/

/-- What a line yields: its characters if it encodes some, and one failure if it does not. -/
inductive LineYields : List UInt8 → CharStream → Prop
  | text (cs : List Char) : LineYields (Utf8.encode cs) (ofList cs)
  | malformed {line : List UInt8} : (∀ cs, line ≠ Utf8.encode cs) →
      LineYields line [.error .malformed]

/-- What is handed out of a line. -/
def ofLine (line : List UInt8) : CharStream :=
  match Utf8.decode? line with
  | some cs => ofList cs
  | none => [.error .malformed]

theorem lineYields_ofLine (line : List UInt8) : LineYields line (ofLine line) := by
  unfold ofLine
  cases h : Utf8.decode? line with
  | some cs => exact Utf8.decode?_eq_some_iff.mp h ▸ .text cs
  | none =>
    refine .malformed fun cs hcs => ?_
    rw [Utf8.decode?_eq_some_iff.mpr hcs] at h
    cases h

namespace CharReader

variable (r : CharReader)

/-- What is to be handed out: the rest of the line read last, and then line by line. -/
def ahead : CharStream := ofList r.chars ++ (byteLines r.file.rest).flatMap ofLine

/-- Through a buffer with room, what is handed out next is the first of what is to be handed out,
and the rest of it is still to be handed out. -/
theorem next_ahead (hroom : 0 < r.file.capacity) :
    r.next.1 = r.ahead.head? ∧ r.next.2.ahead = r.ahead.tail ∧
      r.next.2.file.capacity = r.file.capacity := by
  have hcapacity := r.file.capacity_readLine
  have hlines := r.file.byteLines_rest hroom
  unfold next
  split
  · next c cs hchars => simp [ahead, hchars, ofList]
  · next hchars =>
    split
    · next file hline =>
      rw [hline, if_pos rfl] at hlines
      rw [hline] at hcapacity
      have hrest := r.file.readLine_rest
      rw [hline, List.nil_append] at hrest
      have hahead : r.ahead = [] := by
        rw [ahead, hchars, hlines]
        rfl
      have hahead' : ahead { file } = [] := by
        rw [ahead, hrest, hlines]
        rfl
      rw [hahead]
      exact ⟨rfl, hahead', hcapacity⟩
    · next b line file hline =>
      rw [hline, if_neg (by simp)] at hlines
      rw [hline] at hcapacity
      have hahead : r.ahead = ofLine (b :: line) ++ (byteLines file.rest).flatMap ofLine := by
        rw [ahead, hchars, hlines, List.flatMap_cons]
        rfl
      rw [hahead, ofLine]
      split
      · next hdecode =>
        rw [hdecode]
        exact ⟨rfl, rfl, hcapacity⟩
      · next hdecode => exact absurd (Utf8.decode?_eq_some_iff.mp hdecode) (by simp)
      · next c cs hdecode =>
        rw [hdecode]
        exact ⟨rfl, rfl, hcapacity⟩

/-- The reader after it has been asked a number of times. -/
def after : Nat → CharReader → CharReader
  | 0, r => r
  | n + 1, r => after n r.next.2

/-- However often the reader is asked, it hands out what was to be handed out, in order, and then
nothing any more. -/
theorem next_after (hroom : 0 < r.file.capacity) (i : Nat) :
    (r.after i).next.1 = r.ahead[i]? := by
  induction i generalizing r with
  | zero => rw [after, (r.next_ahead hroom).1, List.head?_eq_getElem?]
  | succ i ih =>
    obtain ⟨-, htail, hcapacity⟩ := r.next_ahead hroom
    rw [after, ih r.next.2 (hcapacity ▸ hroom), htail, List.getElem?_tail]

theorem drain_eq (hroom : 0 < r.file.capacity) (taken : CharStream) :
    r.drain taken = taken.reverse ++ r.ahead := by
  fun_induction drain taken r with
  | case1 taken r r' h =>
    obtain ⟨hhead, -, -⟩ := r.next_ahead hroom
    rw [h] at hhead
    rw [List.head?_eq_none_iff.mp hhead.symm, List.append_nil]
  | case2 taken r item r' h ih =>
    obtain ⟨hhead, htail, hcapacity⟩ := r.next_ahead hroom
    rw [h] at hhead htail hcapacity
    rw [ih (hcapacity ▸ hroom), htail, List.reverse_cons, List.append_assoc, List.singleton_append,
      List.cons_head?_tail hhead.symm]

end CharReader

/-! ### A text in a file -/

/-- The lines of a text that has been encoded are lines of the text that have been encoded. -/
theorem byteLines_encode (cs : List Char) : ∃ texts : List (List Char),
    byteLines (Utf8.encode cs) = texts.map Utf8.encode ∧ texts.flatten = cs := by
  induction cs with
  | nil => exact ⟨[], rfl, rfl⟩
  | cons c cs ih =>
    obtain ⟨texts, htexts, rfl⟩ := ih
    rw [Utf8.encode_cons]
    by_cases hc : c = '\n'
    · subst hc
      have hfeed : String.utf8EncodeChar '\n' = [0x0a] := rfl
      refine ⟨['\n'] :: texts, ?_, rfl⟩
      rw [hfeed, List.singleton_append, byteLines_cons, if_pos rfl, htexts]
      rfl
    · have hne : String.utf8EncodeChar c ≠ [] :=
        List.ne_nil_of_length_pos (by simpa using c.utf8Size_pos)
      rw [byteLines_plain (Utf8.lineFeed_not_mem hc) hne, htexts]
      cases texts with
      | nil => exact ⟨[[c]], by simp, rfl⟩
      | cons text texts => exact ⟨(c :: text) :: texts, rfl, rfl⟩

theorem flatMap_ofLine_encode (cs : List Char) :
    (byteLines (Utf8.encode cs)).flatMap ofLine = ofList cs := by
  obtain ⟨texts, htexts, rfl⟩ := byteLines_encode cs
  have hline (text : List Char) : ofLine (Utf8.encode text) = ofList text := by
    rw [ofLine, Utf8.decode?_eq_some_iff.mpr rfl]
  rw [htexts, List.flatMap_map]
  simp only [hline]
  exact (List.map_flatten ..).symm

/-- **A file reads as its text.** The reader is asked any number of times. It hands out what the
lines yield, one after another, and nothing behind the last of them, whatever the size of the
buffer. (A buffer without room stays empty, which is how a file shows that it is at its end.)
Where the octets of the file are those of a text, that is what the text itself yields, so the two
have the same lexemes, and for the same first identity the same trees, errors and next identity,
and the same program or the same reasons why there is none. -/
theorem file_reads_as_text (capacity : Nat) (octets : List UInt8) (hroom : 0 < capacity) :
    Lines octets (byteLines octets) ∧ (∀ line, LineYields line (ofLine line)) ∧
    (∀ i, (CharReader.after i { file := { capacity, unread := octets } }).next.1 =
      ((byteLines octets).flatMap ofLine)[i]?) ∧
    ofBuffered capacity octets = (byteLines octets).flatMap ofLine ∧
    ∀ text : String, octets = text.toUTF8.data.toList →
      ofBuffered capacity octets = ofString text ∧
      (ofBuffered capacity octets).lexemes = (ofString text).lexemes ∧
      ∀ firstId,
        (ofBuffered capacity octets).parse firstId = (ofString text).parse firstId ∧
        Program.ofParse ((ofBuffered capacity octets).parse firstId) =
          Program.ofParse ((ofString text).parse firstId) := by
  have hyields : ofBuffered capacity octets = (byteLines octets).flatMap ofLine :=
    CharReader.drain_eq _ hroom []
  refine ⟨lines_byteLines octets, lineYields_ofLine, CharReader.next_after _ hroom, hyields,
    fun text htext => ?_⟩
  have hsame : ofBuffered capacity octets = ofString text := by
    rw [hyields, htext, Utf8.toUTF8_eq, flatMap_ofLine_encode]
    rfl
  simp only [hsame, and_self, implies_true]

/-- A line that is not UTF-8 in the middle of a file, and a buffer of two octets. -/
theorem file_reads_as_text_malformed_line : 0 < 2 ∧
    ofBuffered 2 [0xc3, 0xa9, 0x0a, 0xff, 0x0a, 0x3b] =
      [.ok 'é', .ok '\n', .error .malformed, .ok ';'] :=
  ⟨by decide, (file_reads_as_text 2 [0xc3, 0xa9, 0x0a, 0xff, 0x0a, 0x3b] (by decide)).2.2.2.1⟩

end ClassScript
