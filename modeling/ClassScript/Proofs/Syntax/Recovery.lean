/-
# Where a parse goes on after a refusal

A place in a stream of lexemes is a boundary of statements if a semicolon stands in front of
it, if a token that opens a statement stands there, or if the input ends there. After a
refusal a parse goes on at the first boundary behind the lexeme at which it was refused, with
one exception: a token that opens a statement is overlooked if it stands directly behind a
lexeme that is an error, because a step of `recover` that puts such a lexeme aside goes on
without a look at what follows.

Key theorems: `recovers`, by one step for each lexeme skipped; `resumes_at_boundary`, and
`boundary_overlooked` for the exception.
-/
import ClassScript.Proofs.Syntax.LexicalErrors
import Mathlib.Order.Bounds.Basic

namespace ClassScript

/-! ### Places in a stream -/

/-- Whether the input ends at a place. A stream that was cut short ends behind its last lexeme. -/
def endsAt (ls : List Lexeme) (i : Nat) : Bool :=
  match ls[i]? with
  | some (.ok t) => Parser.isEnd t
  | some (.error _) => false
  | none => true

def semicolonAt (ls : List Lexeme) (i : Nat) : Bool :=
  match ls[i]? with
  | some (.ok t) => Parser.isSymbol .semicolon t
  | _ => false

/-- Whether a token that opens a statement stands at a place. -/
def opensAt (ls : List Lexeme) (i : Nat) : Bool :=
  match ls[i]? with
  | some (.ok t) => t.opensStatement
  | _ => false

def errorAt (ls : List Lexeme) (i : Nat) : Bool :=
  match ls[i]? with
  | some (.error _) => true
  | _ => false

/-- Whether the place `q`, which is not the first one, is a boundary of statements. -/
def boundary (ls : List Lexeme) (q : Nat) : Bool :=
  semicolonAt ls (q - 1) || opensAt ls q || endsAt ls q

/-- Whether the place `q` is that of a token that opens a statement, directly behind an error. -/
def overlooked (ls : List Lexeme) (q : Nat) : Bool := errorAt ls (q - 1) && opensAt ls q

/-- Where a parse that was refused at the place `p` goes on. -/
def ResumesAt (ls : List Lexeme) (p q : Nat) : Prop :=
  IsLeast {q | p < q ∧ boundary ls q = true ∧ overlooked ls q = false} q

/-- No statement is opened where the input ends. -/
theorem opensAt_of_endsAt {ls : List Lexeme} {i : Nat} (h : endsAt ls i = true) :
    opensAt ls i = false := by
  unfold endsAt at h
  unfold opensAt
  split at h
  next t ht =>
    rw [ht]
    simp [PlacedToken.opensStatement, Parser.isEnd_iff.mp h]
  next => cases h
  next hnone => rw [hnone]

section Shift

variable {ls : List Lexeme} {l : Lexeme} {p q i : Nat}

theorem endsAt_drop : endsAt (ls.drop p) i = endsAt ls (p + i) := by
  rw [endsAt, endsAt, List.getElem?_drop]

theorem boundary_drop (hq : 0 < q) : boundary (ls.drop p) q = boundary ls (p + q) := by
  have hpred : p + (q - 1) = p + q - 1 := by omega
  simp only [boundary, semicolonAt, opensAt, endsAt, List.getElem?_drop, hpred]

theorem overlooked_drop (hq : 0 < q) : overlooked (ls.drop p) q = overlooked ls (p + q) := by
  have hpred : p + (q - 1) = p + q - 1 := by omega
  simp only [overlooked, errorAt, opensAt, List.getElem?_drop, hpred]

/-- Places may be counted from the place of the refusal. -/
theorem resumesAt_drop : ResumesAt (ls.drop p) 0 q ↔ 0 < q ∧ ResumesAt ls p (p + q) := by
  refine ⟨fun h => ⟨h.1.1, ?_, ?_⟩, fun ⟨hq, h⟩ => ⟨⟨hq, ?_⟩, ?_⟩⟩
  · have hq : 0 < q := h.1.1
    rw [Set.mem_ofPred_eq, ← boundary_drop hq, ← overlooked_drop hq]
    exact ⟨by omega, h.1.2⟩
  · rintro q' ⟨hlt, hq'⟩
    obtain ⟨d, rfl⟩ := Nat.exists_eq_add_of_lt hlt
    rw [Nat.add_assoc, ← boundary_drop (Nat.succ_pos d), ← overlooked_drop (Nat.succ_pos d)] at hq'
    have := h.2 ⟨Nat.succ_pos d, hq'⟩
    omega
  · rw [boundary_drop hq, overlooked_drop hq]
    exact h.1.2
  · rintro q' ⟨hpos, hq'⟩
    rw [boundary_drop hpos, overlooked_drop hpos] at hq'
    have := h.2 ⟨Nat.lt_add_of_pos_right hpos, hq'⟩
    omega

end Shift

/-! ### Skipping -/

/-- A recovery that skips nothing at the end of the input, and otherwise all up to the place where a
parse goes on. -/
def Recovers (ls : List Lexeme) (r : Recovery) : Prop :=
  (endsAt ls 0 = true → r.rest = ls ∧ r.errors = []) ∧
  (endsAt ls 0 = false → ∃ q, ResumesAt ls 0 q ∧ r.rest = ls.drop q ∧
    r.errors = lexicalErrors (ls.take q))

namespace Recovers

variable {ls : List Lexeme} {l : Lexeme} {r : Recovery}

/-- A lexeme behind which a parse goes on is the only one skipped. -/
theorem stop {last : Span} (hend : endsAt (l :: ls) 0 = false) (hl : lexicalErrors [l] = [])
    (hb : boundary (l :: ls) 1 = true) (ho : overlooked (l :: ls) 1 = false) :
    Recovers (l :: ls) ⟨[], ls, last⟩ := by
  refine ⟨fun h => ?_, fun _ => ⟨1, ⟨⟨Nat.one_pos, hb, ho⟩, fun q hq => hq.1⟩, rfl, ?_⟩⟩
  · rw [hend] at h
    cases h
  · exact hl.symm

/-- **A lexeme behind which a parse does not go on is skipped,** with all that is skipped behind it. -/
theorem skip (hend : endsAt (l :: ls) 0 = false)
    (hb : endsAt ls 0 = false → boundary (l :: ls) 1 = true → overlooked (l :: ls) 1 = true)
    (h : Recovers ls r) :
    Recovers (l :: ls) { r with errors := lexicalErrors [l] ++ r.errors } := by
  refine ⟨fun h => ?_, fun _ => ?_⟩
  · rw [hend] at h
    cases h
  by_cases hnext : endsAt ls 0 = true
  · -- the end of the input is a boundary
    obtain ⟨hrest, herrors⟩ := h.1 hnext
    have hends : endsAt (l :: ls) 1 = true := hnext
    have hover : overlooked (l :: ls) 1 = false := by
      rw [overlooked, opensAt_of_endsAt hends, Bool.and_false]
    have hbound : boundary (l :: ls) 1 = true := by
      rw [boundary, hends, Bool.or_true]
    refine ⟨1, ⟨⟨Nat.one_pos, hbound, hover⟩, fun q hq => hq.1⟩, ?_, ?_⟩
    · exact hrest
    · simp [herrors]
  · rw [Bool.not_eq_true] at hnext
    obtain ⟨q, hq, hrest, herrors⟩ := h.2 hnext
    have hbehind : ResumesAt ((l :: ls).drop 1) 0 q := hq
    obtain ⟨hpos, hleast⟩ := resumesAt_drop.mp hbehind
    refine ⟨1 + q, ⟨⟨by omega, hleast.1.2⟩, ?_⟩, ?_, ?_⟩
    · rintro q' ⟨hpos', hq'⟩
      refine hleast.2 ⟨?_, hq'⟩
      by_contra hle
      obtain rfl : q' = 1 := by omega
      rw [hb hnext hq'.1] at hq'
      cases hq'.2
    · rw [hrest, Nat.add_comm, List.drop_succ_cons]
    · rw [herrors, Nat.add_comm, List.take_succ_cons]
      cases l <;> rfl

end Recovers

/-- A lexeme that is an error is skipped whatever follows. -/
theorem Recovers.skip_error {ls : List Lexeme} {r : Recovery} (e : LexError) (h : Recovers ls r) :
    Recovers (.error e :: ls) { r with errors := e :: r.errors } := by
  refine h.skip rfl fun hnext hb => ?_
  have hends : endsAt (.error e :: ls) 1 = false := hnext
  have hsemi : semicolonAt (.error e :: ls) 0 = false := rfl
  rw [boundary, hsemi, hends, Bool.false_or, Bool.or_false] at hb
  rw [overlooked, hb]
  rfl

/-- So is a token in the middle of a statement. -/
theorem Recovers.skip_token {ls : List Lexeme} {r : Recovery} {t : PlacedToken}
    (hend : ¬ Parser.isEnd t = true) (hsemi : ¬ Parser.isSymbol .semicolon t = true)
    (hopens : opensAt ls 0 = false) (h : Recovers ls r) : Recovers (.ok t :: ls) r := by
  refine h.skip (Bool.not_eq_true _ ▸ hend) fun hnext hb => ?_
  have hends : endsAt (.ok t :: ls) 1 = false := hnext
  have hopens' : opensAt (.ok t :: ls) 1 = false := hopens
  have hsemi' : semicolonAt (.ok t :: ls) 0 = false := Bool.not_eq_true _ ▸ hsemi
  rw [boundary, hsemi', hends, hopens'] at hb
  cases hb

/-- **Skipping goes on up to the first boundary that is not overlooked.** -/
theorem recovers (last : Span) (ls : List Lexeme) : Recovers ls (recover last ls) := by
  fun_induction recover last ls with
  | case1 last => exact ⟨fun _ => ⟨rfl, rfl⟩, fun h => by cases h⟩
  | case2 last e rest r ih => exact ih.skip_error e
  | case3 last t rest hend =>
    refine ⟨fun _ => ⟨rfl, rfl⟩, fun h => ?_⟩
    exact absurd (h.symm.trans hend) Bool.false_ne_true
  | case4 last t rest hend hsemi =>
    have hsemi' : semicolonAt (.ok t :: rest) 0 = true := hsemi
    exact .stop (Bool.not_eq_true _ ▸ hend) rfl (by rw [boundary, hsemi']; rfl) rfl
  | case5 last t hend hsemi e rest r ih => exact (ih.skip_error e).skip_token hend hsemi rfl
  | case6 last t hend hsemi u rest hopens =>
    have hopens' : opensAt (.ok t :: .ok u :: rest) 1 = true := hopens
    exact .stop (Bool.not_eq_true _ ▸ hend) rfl (by rw [boundary, hopens']; simp) rfl
  | case7 last t hend hsemi u rest hopens ih =>
    exact ih.skip_token hend hsemi (Bool.not_eq_true _ ▸ hopens)
  | case8 last t hend hsemi =>
    have hends : endsAt [.ok t] 1 = true := rfl
    exact .stop (Bool.not_eq_true _ ▸ hend) rfl (by rw [boundary, hends]; simp) rfl

/-! ### Statement after statement -/

namespace Parse

variable {f n k : Nat} {items : List Lexeme} {c c' : Cursor} {r : Refusal}

/-- The errors that lexemes skipped are reported as. -/
def skippedErrors (ls : List Lexeme) : List (Except SyntaxError Stmt) :=
  (lexicalErrors ls).map fun e => .error (.atTopLevel e)

/-- The results behind a refusal. -/
theorem statements_resumed {t : PlacedToken} {rest : List Lexeme} (hc : c.rest = .ok t :: rest)
    (ht : t.token ≠ .endOfInput)
    (hs : Parser.declaration f { c with constructs := [.topLevel] } = .refused r c') :
    (statements f (n + 1) c).results = .error (r.error c') ::
      ((recover c'.last c'.rest).errors.map fun e => .error (.atTopLevel e)) ++
        (statements f n { c' with
          rest := (recover c'.last c'.rest).rest, last := (recover c'.last c'.rest).last }).results := by
  have hend : ¬ Parser.isEnd t = true := fun h => ht (Parser.isEnd_iff.mp h)
  rw [hc] at hs
  rw [statements]
  simp only [hc, if_neg hend, hs]

/-- Nothing comes of the end of the input. -/
theorem statements_ended (h : endsAt c.rest 0 = true) : (statements f n c).results = [] := by
  cases n with
  | zero => rfl
  | succ n =>
    cases hc : c.rest with
    | nil => exact statements_nil hc
    | cons l rest =>
      rw [hc] at h
      cases l with
      | error e => cases h
      | ok t => exact statements_end hc (Parser.isEnd_iff.mp h)

/-- Where the input does not end and no error stands, there is a token. -/
theorem drop_eq_token (hend : endsAt items k = false) (herror : errorAt items k = false) :
    ∃ t rest, items.drop k = .ok t :: rest ∧ t.token ≠ .endOfInput := by
  rw [← Nat.add_zero k, ← endsAt_drop] at hend
  cases hd : items.drop k with
  | nil =>
    rw [hd] at hend
    cases hend
  | cons l rest =>
    have hl : items[k]? = some l := by
      rw [← Nat.add_zero k, ← List.getElem?_drop, hd]
      rfl
    cases l with
    | error e => simp [errorAt, hl] at herror
    | ok t =>
      refine ⟨t, rest, rfl, fun ht => ?_⟩
      rw [hd, endsAt, List.getElem?_cons_zero] at hend
      simp [Parser.isEnd_iff.mpr ht] at hend

/-- The lexemes left by a parser are those behind some place. -/
theorem rest_eq_drop {α : Type} {p : Parser α} (hp : Parser.Built p) (hc : c.rest = items.drop k)
    (hk : k ≤ items.length) (hr : p c = .refused r c') :
    ∃ i, k ≤ i ∧ i ≤ items.length ∧ c'.rest = items.drop i := by
  have hforward := hp.forward c
  rw [hr] at hforward
  have hsuffix := List.suffix_iff_eq_drop.mp hforward.rest
  rw [hc, List.length_drop, List.drop_drop] at hsuffix
  exact ⟨_, Nat.le_add_right .., by omega, hsuffix⟩

/-- The first boundary that is not overlooked is the first boundary if that is not overlooked. -/
theorem resumesAt_first {p q q₀ : Nat} (hq : ResumesAt items p q)
    (hq₀ : IsLeast {q | p < q ∧ boundary items q = true} q₀) :
    q = q₀ ↔ overlooked items q₀ = false := by
  constructor
  · rintro rfl
    exact hq.1.2.2
  · intro hover
    have hle : q ≤ q₀ := hq.2 ⟨hq₀.1.1, hq₀.1.2, hover⟩
    have hge : q₀ ≤ q := hq₀.2 ⟨hq.1.1, hq.1.2.1⟩
    exact Nat.le_antisymm hle hge

/-- **After a refusal a parse goes on at the next boundary of statements, unless it overlooks that.**
A declaration is begun at the place `k` of a stream and refused. The lexemes up to some place
`p` have been taken then. If the input ends there, so does the parse. If not, the next
declaration is begun at the first boundary behind `p` that is not overlooked; so it is begun at
the first boundary of all if and only if that is not a token which opens a statement directly
behind an error. Each error among the lexemes skipped is reported in between. -/
theorem resumes_at_boundary (hc : c.rest = items.drop k) (hend : endsAt items k = false)
    (herror : errorAt items k = false)
    (hr : Parser.declaration f { c with constructs := [.topLevel] } = .refused r c') :
    ∃ p, k ≤ p ∧ p ≤ items.length ∧ c'.rest = items.drop p ∧
      (endsAt items p = true → (statements f (n + 1) c).results = [.error (r.error c')]) ∧
      (endsAt items p = false → ∃ q c'', ResumesAt items p q ∧ c''.rest = items.drop q ∧
        (statements f (n + 1) c).results = .error (r.error c') ::
          skippedErrors ((items.take q).drop p) ++ (statements f n c'').results ∧
        ∀ q₀, IsLeast {q | p < q ∧ boundary items q = true} q₀ →
          (q = q₀ ↔ overlooked items q₀ = false)) := by
  obtain ⟨t, rest, hdrop, ht⟩ := drop_eq_token hend herror
  have hk : k < items.length := by
    by_contra hle
    rw [List.drop_eq_nil_of_le (by omega)] at hdrop
    cases hdrop
  obtain ⟨p, hkp, hp, hrest⟩ := rest_eq_drop (Parser.built_declaration f)
    (c := { c with constructs := [.topLevel] }) hc (Nat.le_of_lt hk) hr
  have hresults := statements_resumed (n := n) (hc.trans hdrop) ht hr
  obtain ⟨hnone, hsome⟩ := recovers c'.last c'.rest
  rw [hrest] at hnone hsome hresults
  rw [endsAt_drop, Nat.add_zero] at hnone hsome
  refine ⟨p, hkp, hp, hrest, fun hends => ?_, fun hends => ?_⟩
  · obtain ⟨hleft, herrors⟩ := hnone hends
    rw [hresults, herrors, statements_ended]
    · rfl
    · rw [hleft, endsAt_drop]
      exact hends
  · obtain ⟨d, hd, hleft, herrors⟩ := hsome hends
    obtain ⟨-, hq⟩ := resumesAt_drop.mp hd
    rw [hleft, herrors, List.drop_drop] at hresults
    have hskipped : (items.drop p).take d = (items.take (p + d)).drop p := by
      rw [List.drop_take, Nat.add_sub_cancel_left]
    rw [hskipped] at hresults
    exact ⟨p + d, _, hq, rfl, hresults, fun q₀ => resumesAt_first hq⟩

/-- An error among the lexemes skipped, and a boundary behind the token that follows it. -/
theorem resumes_at_boundary_behind_nil :
    ∃ items, (CharStream.ofString ") @ nil var x;").lexemes = items ∧
      ∃ r c', Parser.declaration (parseFuel 7) { rest := items } = .refused r c' ∧
        ∃ c'', ResumesAt items 0 3 ∧ c''.rest = items.drop 3 ∧
          (statements (parseFuel 7) 8 { rest := items }).results = .error (r.error c') ::
            skippedErrors ((items.take 3).drop 0) ++ (statements (parseFuel 7) 7 c'').results := by
  let items : List Lexeme := [.ok ⟨.symbol .closeParen, ⟨0, 1⟩, 1⟩,
    .error ⟨.unexpectedChar '@', ⟨2, 3⟩⟩, .ok ⟨.symbol .nilWord, ⟨4, 7⟩, 1⟩,
    .ok ⟨.symbol .varWord, ⟨8, 11⟩, 1⟩, .ok ⟨.name "x", ⟨12, 13⟩, 1⟩,
    .ok ⟨.symbol .semicolon, ⟨13, 14⟩, 1⟩, .ok ⟨.endOfInput, ⟨14, 14⟩, 1⟩]
  have hr : Parser.declaration (parseFuel 7) { rest := items } =
      .refused ⟨.expectedExpression, ⟨0, 1⟩⟩ ⟨items, .point 0, [.expr, .exprStmt, .topLevel], 0⟩ :=
    rfl
  have hstart : ({ rest := items } : Cursor).rest = items.drop 0 := rfl
  obtain ⟨p, -, hp, hrest, -, hresumes⟩ := resumes_at_boundary (n := 7) hstart rfl rfl hr
  obtain rfl : p = 0 := by
    have hlength := congrArg List.length hrest
    rw [List.length_drop] at hlength
    dsimp only at hlength
    omega
  obtain ⟨q, c'', hq, hc'', hresults, -⟩ := hresumes rfl
  obtain rfl : q = 3 := by
    refine hq.unique ⟨⟨by decide, rfl, rfl⟩, ?_⟩
    rintro q' ⟨hpos, hb, -⟩
    by_contra hlt
    obtain rfl | rfl : q' = 1 ∨ q' = 2 := by omega
    · cases hb
    · cases hb
  have hitems : (CharStream.ofString ") @ nil var x;").lexemes = items := rfl
  exact ⟨items, hitems, _, _, hr, c'', hq, hc'', hresults⟩

/-- **A statement behind an error is overlooked.** The first boundary behind the place of the refusal
is the keyword, but the declaration that it opens, which would be refused, is not begun there. -/
theorem boundary_overlooked :
    ∃ items, (CharStream.ofString ") @ var;").lexemes = items ∧
      ∃ r c', Parser.declaration (parseFuel 5) { rest := items } = .refused r c' ∧
        c'.rest = items.drop 0 ∧ endsAt items 0 = false ∧
        IsLeast {q | 0 < q ∧ boundary items q = true} 2 ∧
        ¬ ∃ c'', c''.rest = items.drop 2 ∧ (parseLexemes 0 items).results =
          .error (r.error c') :: skippedErrors ((items.take 2).drop 0) ++
            (statements (parseFuel 5) 5 c'').results := by
  let items : List Lexeme := [.ok ⟨.symbol .closeParen, ⟨0, 1⟩, 1⟩,
    .error ⟨.unexpectedChar '@', ⟨2, 3⟩⟩, .ok ⟨.symbol .varWord, ⟨4, 7⟩, 1⟩,
    .ok ⟨.symbol .semicolon, ⟨7, 8⟩, 1⟩, .ok ⟨.endOfInput, ⟨8, 8⟩, 1⟩]
  have hitems : (CharStream.ofString ") @ var;").lexemes = items := rfl
  have hr : Parser.declaration (parseFuel 5) { rest := items } =
      .refused ⟨.expectedExpression, ⟨0, 1⟩⟩ ⟨items, .point 0, [.expr, .exprStmt, .topLevel], 0⟩ :=
    rfl
  have hfirst : IsLeast {q | 0 < q ∧ boundary items q = true} 2 := by
    refine ⟨⟨by decide, rfl⟩, ?_⟩
    rintro q ⟨hpos, hb⟩
    by_contra hlt
    obtain rfl : q = 1 := by omega
    cases hb
  refine ⟨items, hitems, _, _, hr, rfl, rfl, hfirst, ?_⟩
  rintro ⟨⟨rest, last, constructs, nextId⟩, rfl, hresults⟩
  have hparse : (parseLexemes 0 (CharStream.ofString ") @ var;").lexemes).results.length = 2 := by
    decide +kernel
  rw [hitems] at hparse
  have hbegun : (statements (parseFuel 5) 5
      ⟨items.drop 2, last, constructs, nextId⟩).results.length = 1 := by rfl
  have hlength := congrArg List.length hresults
  rw [List.cons_append, List.length_cons, List.length_append, hparse, hbegun] at hlength
  cases hlength

end Parse
end ClassScript
