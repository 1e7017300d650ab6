/-
# Where lines begin

A line begins at the beginning of a text and behind every line feed (`begins`), and reaches up to
the next line feed (`lineFrom`). The lines that are shown, from the one that begins at an index on,
are those of the text from that index on (`shownLines_drop`), and the next line begins one
character behind the end of a line (`begins_next`).

The lines from one on, by where they begin, are `startsFrom`. An index lies in or behind a line
if as many line feeds stand in front of it as in front of the line (`le_iff_lineIndex`,
`reaches_iff_lineIndex`), so a stretch of lines can be told by indices alone (`mem_startsFrom`).
-/
import Mathlib.Data.List.Sort
import Mathlib.Data.List.TakeWhile
import ClassScript.Diagnostic.Excerpt

namespace ClassScript.Diagnostic

/-- The number of line feeds in front of character `i`, which is the index of its line. -/
def lineIndex (text : List Char) (i : Nat) : Nat := (text.take i).count '\n'

/-- The number of characters between the beginning of its line and character `i`. -/
def column (text : List Char) (i : Nat) : Nat := ((text.take i).reverse.takeWhile (· ≠ '\n')).length

/-- Whether a line begins at index `a`: at the beginning of the text, or behind a line feed. -/
def begins (text : List Char) (a : Nat) : Bool := a == 0 || text[a - 1]? == some '\n'

/-- The line that begins at index `a`, without its line feed. -/
def lineFrom (text : List Char) (a : Nat) : List Char := (text.drop a).takeWhile (· ≠ '\n')

/-- The beginnings of so many lines, from the one that begins at index `a` on. -/
def startsFrom (text : List Char) : (lines a : Nat) → List Nat
  | 0, _ => []
  | n + 1, a => a :: startsFrom text n (a + (lineFrom text a).length + 1)

variable {text pre line rest : List Char} {a b i : Nat}

/-! ### Lines in turn -/

theorem linesOf_line (h : '\n' ∉ line) : linesOf line = [line] := by
  induction line with
  | nil => rfl
  | cons c cs ih =>
    rw [List.mem_cons, not_or] at h
    rw [linesOf, if_neg (Ne.symm h.1), ih h.2]

theorem linesOf_append (h : '\n' ∉ line) (rest : List Char) :
    linesOf (line ++ '\n' :: rest) = line :: linesOf rest := by
  induction line with
  | nil => simp [linesOf]
  | cons c cs ih =>
    rw [List.mem_cons, not_or] at h
    rw [List.cons_append, linesOf, if_neg (Ne.symm h.1), ih h.2]

theorem linesOf_ne_nil (text : List Char) : linesOf text ≠ [] := by
  by_cases h : '\n' ∈ text
  · obtain ⟨line, rest, rfl, hline⟩ := List.eq_append_cons_of_mem h
    simp [linesOf_append hline]
  · simp [linesOf_line h]

/-- The last line is shown as it is. -/
theorem shownLines_line (h : '\n' ∉ line) : shownLines line = [line] := by
  simp [shownLines, linesOf_line h]

/-- Of any other line, a carriage return at its end is not shown. -/
theorem shownLines_append (h : '\n' ∉ line) (rest : List Char) :
    shownLines (line ++ '\n' :: rest) = dropReturn line :: shownLines rest := by
  obtain ⟨l, ls, hl⟩ := List.exists_cons_of_ne_nil (linesOf_ne_nil rest)
  simp [shownLines, linesOf_append h, hl]

/-! ### Whole lines -/

/-- The text consists of whole lines: it is empty, or ends in a line feed. -/
def WholeLines (pre : List Char) : Prop := pre = [] ∨ pre.getLast? = some '\n'

theorem begins_iff (ha : a ≤ text.length) : begins text a = true ↔ WholeLines (text.take a) := by
  unfold begins WholeLines
  cases a with
  | zero => simp
  | succ a =>
    have hne : text.take (a + 1) ≠ [] := by
      intro h
      have hlen := congrArg List.length h
      rw [List.length_take, List.length_nil] at hlen
      omega
    have hlast : (text.take (a + 1)).getLast? = text[a]? := by
      rw [List.getLast?_eq_getElem?, List.length_take, List.getElem?_take]
      have hmin : min (a + 1) text.length - 1 = a := by omega
      rw [hmin, if_pos (Nat.lt_succ_self a)]
    simp [hne, hlast]

/-- Behind whole lines, the lines of the rest are shown. -/
theorem shownLines_whole (h : WholeLines pre) (rest : List Char) :
    (shownLines (pre ++ rest)).drop (pre.count '\n') = shownLines rest := by
  -- one line of `pre` after the other
  induction hn : pre.length using Nat.strongRecOn generalizing pre with
  | ind n ih =>
    by_cases hmem : '\n' ∈ pre
    · obtain ⟨line, pre', rfl, hline⟩ := List.eq_append_cons_of_mem hmem
      have hwhole : WholeLines pre' := by
        rcases h with h | h
        · simp at h
        · cases pre' with
          | nil => exact .inl rfl
          | cons c cs => exact .inr (by simpa [List.getLast?_append] using h)
      have hcount : (line ++ '\n' :: pre').count '\n' = pre'.count '\n' + 1 := by
        rw [List.count_append, List.count_cons_self, List.count_eq_zero.mpr hline]
        omega
      have hlt : pre'.length < n := by
        rw [← hn, List.length_append, List.length_cons]
        omega
      rw [List.append_assoc, List.cons_append, shownLines_append hline, hcount, List.drop_succ_cons]
      exact ih pre'.length hlt hwhole rfl
    · have hnil : pre = [] := by
        rcases h with h | h
        · exact h
        · exact absurd (List.mem_of_getLast? h) hmem
      simp [hnil]

/-- **From a line on, the lines of the rest of the text are shown.** -/
theorem shownLines_drop (ha : a ≤ text.length) (hb : begins text a = true) :
    (shownLines text).drop (lineIndex text a) = shownLines (text.drop a) := by
  have h := shownLines_whole ((begins_iff ha).mp hb) (text.drop a)
  rwa [List.take_append_drop] at h

/-! ### From one line to the next -/

theorem lineFrom_free : '\n' ∉ lineFrom text a := fun h => by
  simpa using List.mem_takeWhile_imp h

/-- A line that is not the last one has a line feed behind it. -/
theorem drop_line (h : '\n' ∈ text.drop a) :
    text.drop a = lineFrom text a ++ '\n' :: text.drop (a + (lineFrom text a).length + 1) := by
  obtain ⟨line, rest, hdrop, hline⟩ := List.eq_append_cons_of_mem h
  have hfrom : lineFrom text a = line := by
    unfold lineFrom
    rw [hdrop, List.takeWhile_append_of_pos]
    · simp
    · intro c hc
      simpa using fun heq : c = '\n' => hline (heq ▸ hc)
  have hrest : text.drop (a + line.length + 1) = rest := by
    rw [Nat.add_assoc, ← List.drop_drop, hdrop, ← List.drop_drop, List.drop_left,
      List.drop_succ_cons, List.drop_zero]
  rw [hfrom, hrest, hdrop]

/-- The last line is all that is left. -/
theorem drop_lastLine (h : '\n' ∉ text.drop a) : text.drop a = lineFrom text a := by
  have hall : ∀ c ∈ text.drop a, decide (c ≠ '\n') = true := fun c hc => by
    simpa using fun heq : c = '\n' => h (heq ▸ hc)
  exact (List.takeWhile_eq_self_iff.mpr hall).symm

theorem lineIndex_mono (h : a ≤ b) : lineIndex text a ≤ lineIndex text b :=
  List.Sublist.count_le _ (List.take_sublist_take_left h)

/-- The line feeds of a stretch of the text. -/
theorem lineIndex_add (text : List Char) (a k : Nat) :
    lineIndex text (a + k) = lineIndex text a + ((text.drop a).take k).count '\n' := by
  rw [lineIndex, lineIndex, List.take_add, List.count_append]

/-- No line feed stands in a line. -/
theorem lineIndex_within (text : List Char) (a : Nat) :
    lineIndex text (a + (lineFrom text a).length) = lineIndex text a := by
  have htake : (text.drop a).take (lineFrom text a).length = lineFrom text a :=
    List.prefix_iff_eq_take.mp (List.takeWhile_prefix _) |>.symm
  rw [lineIndex_add, htake, List.count_eq_zero.mpr lineFrom_free, Nat.add_zero]

/-- **The next line begins one character behind the end of a line.** -/
theorem begins_next (h : '\n' ∈ text.drop a) :
    let next := a + (lineFrom text a).length + 1
    next ≤ text.length ∧ begins text next = true ∧ lineIndex text next = lineIndex text a + 1 := by
  intro next
  have hdrop := drop_line h
  have hfeed : text[a + (lineFrom text a).length]? = some '\n' := by
    rw [← List.getElem?_drop, hdrop, List.getElem?_append_right (Nat.le_refl _), Nat.sub_self]
    rfl
  refine ⟨(List.getElem?_eq_some_iff.mp hfeed).1, by simp [begins, next, hfeed], ?_⟩
  have htake : (text.drop (a + (lineFrom text a).length)).take 1 = ['\n'] := by
    rw [← List.drop_drop, hdrop, List.drop_left]
    rfl
  show lineIndex text (a + (lineFrom text a).length + 1) = _
  rw [lineIndex_add, htake, lineIndex_within]
  rfl

/-! ### Lines by index -/

/-- **An index is not in front of a line if it has as many line feeds in front of it.** -/
theorem le_iff_lineIndex (hb : begins text a = true) :
    a ≤ i ↔ lineIndex text a ≤ lineIndex text i := by
  refine ⟨fun h => lineIndex_mono h, fun h => ?_⟩
  by_contra hlt
  have hpos : a ≠ 0 := by omega
  have hfeed : text[a - 1]? = some '\n' := by simpa [begins, hpos] using hb
  have htake : (text.drop (a - 1)).take 1 = ['\n'] := by
    rw [List.take_one, List.head?_drop, hfeed]
    rfl
  have hlast : lineIndex text (a - 1 + 1) = lineIndex text (a - 1) + 1 := by
    rw [lineIndex_add, htake]
    rfl
  have hle : lineIndex text i ≤ lineIndex text (a - 1) := lineIndex_mono (by omega)
  rw [Nat.sub_add_cancel (Nat.pos_of_ne_zero hpos)] at hlast
  omega

/-- A line that does not end in front of an index is its line or one behind it. -/
theorem reaches_iff_lineIndex (hi : i ≤ text.length) :
    i ≤ a + (lineFrom text a).length ↔ lineIndex text i ≤ lineIndex text a := by
  constructor
  · intro h
    exact lineIndex_within text a ▸ lineIndex_mono h
  · intro h
    by_contra hlt
    have hmem : '\n' ∈ text.drop a := by
      by_contra hlast
      have hlen := congrArg List.length (drop_lastLine hlast)
      rw [List.length_drop] at hlen
      omega
    have hnext := (begins_next hmem).2.2
    have hle : lineIndex text (a + (lineFrom text a).length + 1) ≤ lineIndex text i :=
      lineIndex_mono (by omega)
    omega

/-- A line that is not the last one of the text has a line feed behind it. -/
theorem feed_of_lineIndex (h : lineIndex text a < lineIndex text text.length) :
    '\n' ∈ text.drop a := by
  by_cases ha : a ≤ text.length
  · have hadd := lineIndex_add text a (text.length - a)
    rw [Nat.add_sub_cancel' ha, List.take_of_length_le (by simp)] at hadd
    exact List.count_pos_iff.mp (by omega)
  · have hmono : lineIndex text text.length ≤ lineIndex text a := lineIndex_mono (by omega)
    omega

/-- **A stretch of lines, by index:** those with so many line feeds in front of them. -/
theorem mem_startsFrom : ∀ {n a : Nat}, begins text a = true → a ≤ text.length →
    lineIndex text a + n ≤ lineIndex text text.length + 1 →
    (i ∈ startsFrom text n a ↔ begins text i = true ∧ i ≤ text.length ∧
      lineIndex text a ≤ lineIndex text i ∧ lineIndex text i < lineIndex text a + n)
  | 0, a, _, _, _ => by
    simp only [startsFrom, List.not_mem_nil, false_iff]
    omega
  | n + 1, a, hb, ha, hn => by
    have hhead : i = a ↔ begins text i = true ∧ i ≤ text.length ∧
        lineIndex text i = lineIndex text a := by
      constructor
      · rintro rfl
        exact ⟨hb, ha, rfl⟩
      · rintro ⟨hbi, -, heq⟩
        have hle := (le_iff_lineIndex hb).mpr (Nat.le_of_eq heq.symm)
        have hge := (le_iff_lineIndex hbi).mpr (Nat.le_of_eq heq)
        omega
    have htail : i ∈ startsFrom text n (a + (lineFrom text a).length + 1) ↔ begins text i = true ∧
        i ≤ text.length ∧ lineIndex text a + 1 ≤ lineIndex text i ∧
        lineIndex text i < lineIndex text a + 1 + n := by
      cases n with
      | zero =>
        simp only [startsFrom, List.not_mem_nil, false_iff]
        omega
      | succ n =>
        have hfeed : '\n' ∈ text.drop a := feed_of_lineIndex (by omega)
        obtain ⟨hle, hbegins, hindex⟩ := begins_next hfeed
        rw [mem_startsFrom hbegins hle (by omega), hindex]
    rw [startsFrom, List.mem_cons, hhead, htail]
    constructor
    · rintro (⟨hbi, hi, heq⟩ | ⟨hbi, hi, hge, hlt⟩)
      · exact ⟨hbi, hi, by omega, by omega⟩
      · exact ⟨hbi, hi, by omega, by omega⟩
    · rintro ⟨hbi, hi, hge, hlt⟩
      by_cases heq : lineIndex text i = lineIndex text a
      · exact .inl ⟨hbi, hi, heq⟩
      · exact .inr ⟨hbi, hi, by omega, by omega⟩

/-- Lines begin one behind the other. -/
theorem le_of_mem_startsFrom : ∀ {n a : Nat}, i ∈ startsFrom text n a → a ≤ i
  | n + 1, a, h => by
    rcases List.mem_cons.mp h with rfl | h
    · exact Nat.le_refl _
    · have hle := le_of_mem_startsFrom h
      omega

theorem pairwise_startsFrom : ∀ n a : Nat, (startsFrom text n a).Pairwise (· < ·)
  | 0, _ => .nil
  | n + 1, a => by
    refine .cons (fun i hi => ?_) (pairwise_startsFrom n _)
    have hle := le_of_mem_startsFrom hi
    omega

/-! ### The line of an index -/

theorem take_column (text : List Char) (i : Nat) : ∃ pre line, text.take i = pre ++ line ∧
    WholeLines pre ∧ '\n' ∉ line ∧ line.length = column text i := by
  let back := (text.take i).reverse
  have hsplit : text.take i =
      (back.dropWhile (· ≠ '\n')).reverse ++ (back.takeWhile (· ≠ '\n')).reverse := by
    rw [← List.reverse_append, List.takeWhile_append_dropWhile, List.reverse_reverse]
  refine ⟨_, _, hsplit, ?_, ?_, by simp [column, back]⟩
  · cases hback : back.dropWhile (· ≠ '\n') with
    | nil => exact .inl rfl
    | cons c cs =>
      have hc := List.head?_dropWhile_not (fun c : Char => decide (c ≠ '\n')) back
      rw [hback] at hc
      refine .inr ?_
      simpa using hc
  · rw [List.mem_reverse]
    intro h
    simpa using List.mem_takeWhile_imp h

/-- **The line of an index begins so many characters in front of it.** -/
theorem begins_column (hi : i ≤ text.length) : column text i ≤ i ∧
    begins text (i - column text i) = true ∧
      lineIndex text (i - column text i) = lineIndex text i := by
  obtain ⟨pre, line, htake, hwhole, hfree, hcolumn⟩ := take_column text i
  have hlen : pre.length + column text i = i := by
    have hlength := congrArg List.length htake
    rw [List.length_take, List.length_append, hcolumn] at hlength
    omega
  have hstart : i - column text i = pre.length := by omega
  have hpre : text.take pre.length = pre := by
    have hle : pre.length ≤ i := by omega
    rw [← Nat.min_eq_left hle, ← List.take_take, htake, List.take_left]
  refine ⟨by omega, ?_, ?_⟩
  · rw [hstart, begins_iff (by omega), hpre]
    exact hwhole
  · rw [hstart, lineIndex, lineIndex, hpre, htake, List.count_append, List.count_eq_zero.mpr hfree,
      Nat.add_zero]

end ClassScript.Diagnostic
