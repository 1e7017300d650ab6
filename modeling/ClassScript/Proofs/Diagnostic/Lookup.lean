/-
# Looking up the lines of a span

The table of a text holds, for each line, the index at which that line begins: so many line feeds
stand in front of it as its place in the table says (`starts_getElem`). So halving finds the line of
every character, by the number of line feeds in front of it (`lineOf?_ofText`), no look-up leaves the
table and no difference is negative (`find?_ofText`).

Key theorems: `search_spec`, `lineOf?_ofText`, `find?_ofText`.
-/
import Mathlib.Data.List.GetD
import ClassScript.Proofs.Diagnostic.Lines

namespace ClassScript.Diagnostic

variable {text : List Char} {span : Span} {a i k : Nat}

/-! ### Halving -/

/-- **Halving finds an entry, or the place between the smaller entries and the greater ones.** What
is searched shrinks, and nothing outside of it can be the entry. -/
theorem search_spec {table : Array Nat}
    (hasc : ∀ (j k : Nat) (hj : j < table.size) (hk : k < table.size), j < k → table[j] < table[k])
    {lo hi : Nat} (hlo : lo ≤ table.size) (h : hi ≤ table.size)
    (hlow : ∀ (k : Nat) (hk : k < table.size), k < lo → table[k] < i)
    (hhigh : ∀ (k : Nat) (hk : k < table.size), hi ≤ k → i < table[k]) :
    match search table i lo hi h with
    | .ok m => table[m]? = some i
    | .error n => n ≤ table.size ∧
        ∀ (k : Nat) (hk : k < table.size), k < n ↔ table[k] ≤ i := by
  fun_induction search table i lo hi h with
  | case1 lo hi h hlt mid hmid heq => exact Array.getElem?_eq_some_iff.mpr ⟨hmid, heq⟩
  | case2 lo hi h hlt mid hmid hne hless ih =>
    refine ih (by omega) (fun k hk hlt' => ?_) hhigh
    by_cases heq : k = mid
    · subst heq
      exact hless
    · exact Nat.lt_trans (hasc k mid hk hmid (by omega)) hless
  | case3 lo hi h hlt mid hmid hne hless ih =>
    refine ih hlo hlow fun k hk hle => ?_
    have hgreater : i < table[mid] := by omega
    by_cases heq : k = mid
    · subst heq
      exact hgreater
    · exact Nat.lt_trans hgreater (hasc mid k hmid hk (by omega))
  | case4 lo hi h hge =>
    refine ⟨hlo, fun k hk => ?_⟩
    constructor
    · intro hlt
      exact Nat.le_of_lt (hlow k hk hlt)
    · intro hle
      by_contra hge'
      have hgreater := hhigh k hk (by omega)
      omega

/-! ### The beginnings of lines -/

theorem length_startsBehind (i : Nat) : ∀ cs : List Char, (startsBehind i cs).length = cs.count '\n'
  | [] => rfl
  | c :: cs => by
    unfold startsBehind
    by_cases hc : c = '\n'
    · rw [if_pos hc, hc, List.length_cons, length_startsBehind (i + 1) cs, List.count_cons_self]
    · rw [if_neg hc, length_startsBehind (i + 1) cs, List.count_cons_of_ne hc]

/-- A line begins behind each line feed, and has one line feed more in front of it than the line
before. The characters in `pre` are passed. -/
theorem mem_startsBehind : ∀ (cs pre : List Char) {k : Nat},
    (startsBehind pre.length cs)[k]? = some a →
      begins (pre ++ cs) a = true ∧ a ≤ (pre ++ cs).length ∧
        lineIndex (pre ++ cs) a = pre.count '\n' + 1 + k
  | [], pre, k, h => by simp [startsBehind] at h
  | c :: cs, pre, k, h => by
    have hpre : pre ++ c :: cs = (pre ++ [c]) ++ cs := by simp
    have hlen : pre.length + 1 = (pre ++ [c]).length := by simp
    unfold startsBehind at h
    rw [hlen] at h
    by_cases hc : c = '\n'
    · rw [if_pos hc] at h
      have hcount : (pre ++ [c]).count '\n' = pre.count '\n' + 1 := by simp [hc]
      cases k with
      | zero =>
        obtain rfl : (pre ++ [c]).length = a := by simpa using h
        refine ⟨by simp [begins, hc], by simp, ?_⟩
        rw [hpre, lineIndex, List.take_left, hcount]
      | succ k =>
        obtain ⟨hbegins, hle, hindex⟩ := mem_startsBehind cs (pre ++ [c]) h
        rw [hpre]
        exact ⟨hbegins, hle, by omega⟩
    · rw [if_neg hc] at h
      have hcount : (pre ++ [c]).count '\n' = pre.count '\n' := by simp [hc]
      obtain ⟨hbegins, hle, hindex⟩ := mem_startsBehind cs (pre ++ [c]) h
      rw [hpre]
      exact ⟨hbegins, hle, by omega⟩

/-- The table has an entry for each line. -/
theorem size_starts (text : List Char) :
    (LineTable.ofText text).starts.size = lineIndex text text.length + 1 := by
  simp [LineTable.ofText, length_startsBehind, lineIndex]

/-- **The entry of a line is the index at which that line begins.** -/
theorem starts_getElem (h : (LineTable.ofText text).starts[k]? = some a) :
    begins text a = true ∧ a ≤ text.length ∧ lineIndex text a = k := by
  rw [LineTable.ofText, List.getElem?_toArray] at h
  cases k with
  | zero =>
    obtain rfl : 0 = a := by simpa using h
    exact ⟨rfl, Nat.zero_le _, rfl⟩
  | succ k =>
    have hmem := mem_startsBehind text [] (by simpa using h)
    simpa [Nat.add_comm] using hmem

/-- An entry is not behind an index if its line is not behind the line of that index. -/
theorem starts_le_iff (hk : k < (LineTable.ofText text).starts.size) :
    (LineTable.ofText text).starts[k] ≤ i ↔ k ≤ lineIndex text i := by
  obtain ⟨hbegins, -, hindex⟩ := starts_getElem (Array.getElem?_eq_getElem hk)
  rw [le_iff_lineIndex hbegins, hindex]

theorem starts_ascend {j : Nat} (hj : j < (LineTable.ofText text).starts.size)
    (hk : k < (LineTable.ofText text).starts.size) (hlt : j < k) :
    (LineTable.ofText text).starts[j] < (LineTable.ofText text).starts[k] := by
  obtain ⟨-, -, hindex⟩ := starts_getElem (Array.getElem?_eq_getElem hj)
  have hle := starts_le_iff (i := (LineTable.ofText text).starts[j]) hk
  omega

/-! ### The line of a character -/

/-- **The line of a character is found,** and so many line feeds stand in front of the character. -/
theorem lineOf?_ofText (hi : i ≤ text.length) :
    (LineTable.ofText text).lineOf? i = some (lineIndex text i) := by
  have hspec := search_spec (i := i) (fun j k hj hk => starts_ascend hj hk)
    (Nat.zero_le _) (Nat.le_refl (LineTable.ofText text).starts.size) (by simp)
    (fun k hk hle => absurd hk (by omega))
  have hline : lineIndex text i < (LineTable.ofText text).starts.size := by
    have hmono : lineIndex text i ≤ lineIndex text text.length := lineIndex_mono hi
    rw [size_starts]
    omega
  unfold LineTable.lineOf?
  split at hspec
  next m heq =>
    obtain ⟨-, -, hindex⟩ := starts_getElem hspec
    rw [heq, hindex]
  next n heq =>
    have hcut : ∀ k, k < (LineTable.ofText text).starts.size → (k < n ↔ k ≤ lineIndex text i) :=
      fun k hk => (hspec.2 k hk).trans (starts_le_iff hk)
    have hplace : n = lineIndex text i + 1 := by
      have hle := hspec.1
      have hbelow := (hcut (lineIndex text i) hline).mpr (Nat.le_refl _)
      by_contra hne
      have habove := (hcut (lineIndex text i + 1) (by omega)).mp (by omega)
      omega
    rw [heq, hplace]
    rfl

/-- The entry of the line of a character is where that line begins. -/
theorem starts_lineIndex (hi : i ≤ text.length) :
    (LineTable.ofText text).starts[lineIndex text i]? = some (i - column text i) := by
  have hline : lineIndex text i < (LineTable.ofText text).starts.size := by
    have hmono : lineIndex text i ≤ lineIndex text text.length := lineIndex_mono hi
    rw [size_starts]
    omega
  obtain ⟨hbegins, -, hindex⟩ := starts_getElem (Array.getElem?_eq_getElem hline)
  obtain ⟨-, hbegins', hindex'⟩ := begins_column hi
  rw [Array.getElem?_eq_getElem hline, Option.some_inj]
  -- two beginnings with as many line feeds in front of them are the same
  have hle := (le_iff_lineIndex (i := i - column text i) hbegins).mpr (by omega)
  have hge := (le_iff_lineIndex (i := (LineTable.ofText text).starts[lineIndex text i])
    hbegins').mpr (by omega)
  omega

/-! ### The lines themselves -/

theorem length_shownLines (text : List Char) :
    (shownLines text).length = lineIndex text text.length + 1 := by
  rw [lineIndex, List.take_length]
  induction hn : text.length using Nat.strongRecOn generalizing text with
  | ind n ih =>
    by_cases hmem : '\n' ∈ text
    · obtain ⟨line, rest, rfl, hline⟩ := List.eq_append_cons_of_mem hmem
      have hlt : rest.length < n := by
        rw [← hn, List.length_append, List.length_cons]
        omega
      rw [shownLines_append hline, List.length_cons, ih rest.length hlt rest rfl,
        List.count_append, List.count_cons_self, List.count_eq_zero.mpr hline]
      omega
    · rw [shownLines_line hmem, List.count_eq_zero.mpr hmem]
      rfl

/-- An empty line at the end that was left out is an empty line. -/
theorem getD_filledLines (text : List Char) (k : Nat) :
    (filledLines text).getD k [] = (shownLines text).getD k [] := by
  unfold filledLines
  by_cases h : (shownLines text).getLast? = some []
  · obtain ⟨front, hfront⟩ := List.getLast?_eq_some_iff.mp h
    rw [hfront, if_pos (by simp), List.dropLast_concat]
    by_cases hk : k < front.length
    · rw [List.getD_append _ _ _ _ hk]
    · rw [List.getD_eq_default _ _ (by omega), List.getD_append_right _ _ _ _ (by omega),
        List.getD_eq_getElem?_getD, List.getElem?_getD_singleton_default_eq]
  · simp only [if_neg h]

/-- **The lines looked up one by one are a stretch of the lines that are shown.** -/
theorem linesFrom_ofText {first last : Nat} (hle : first ≤ last)
    (hlast : last ≤ lineIndex text text.length) :
    (LineTable.ofText text).linesFrom first last =
      ((shownLines text).drop first).take (last + 1 - first) := by
  have hlength := length_shownLines text
  refine List.ext_getElem (by simp [LineTable.linesFrom]; omega) fun k hk hk' => ?_
  have hentry : first + k < (shownLines text).length := by
    simp only [LineTable.linesFrom, List.length_map, List.length_range'] at hk
    omega
  have htable : ∀ j, (LineTable.ofText text).lines.getD j [] = (filledLines text).getD j [] := by
    simp [LineTable.ofText, List.getD_eq_getElem?_getD]
  simp only [LineTable.linesFrom, List.getElem_map, List.getElem_range', List.getElem_take,
    List.getElem_drop, Nat.one_mul]
  rw [htable, getD_filledLines, List.getD_eq_getElem _ _ hentry]

/-! ### Whole excerpts -/

/-- **Every look-up succeeds:** no index lies outside of the table, and no difference is negative. -/
theorem find?_ofText (text : List Char) (span : Span) :
    let start := min span.start text.length
    let stop := max start (min span.stop text.length)
    let first := lineIndex text start
    let last := lineIndex text (max start (stop - 1))
    Excerpt.find? (.ofText text) span =
      some ⟨((shownLines text).drop first).take (last + 1 - first), first + 1, column text start,
        column text start + (stop - start)⟩ := by
  intro start stop first last
  have hstart : start ≤ text.length := Nat.min_le_right ..
  have hstop : max start (stop - 1) ≤ text.length := by omega
  have hlines : (LineTable.ofText text).linesFrom first last = _ :=
    linesFrom_ofText (lineIndex_mono (by omega)) (lineIndex_mono hstop)
  have hcolumn := (begins_column hstart).1
  have hclamp : clamp? span.stop start text.length = some stop := if_pos hstart
  have hbegins : minus? start (start - column text start) = some (column text start) := by
    rw [minus?, if_pos (by omega), Option.some_inj]
    omega
  have hends : minus? stop (start - column text start) =
      some (column text start + (stop - start)) := by
    rw [minus?, if_pos (by omega), Option.some_inj]
    omega
  refine Option.bind_eq_some_iff.mpr ⟨stop, hclamp, ?_⟩
  refine Option.bind_eq_some_iff.mpr ⟨first, lineOf?_ofText hstart, ?_⟩
  refine Option.bind_eq_some_iff.mpr ⟨last, lineOf?_ofText hstop, ?_⟩
  refine Option.bind_eq_some_iff.mpr ⟨_, starts_lineIndex hstart, ?_⟩
  refine Option.bind_eq_some_iff.mpr ⟨_, hbegins, ?_⟩
  refine Option.bind_eq_some_iff.mpr ⟨_, hends, ?_⟩
  rw [hlines]
  rfl

end ClassScript.Diagnostic
