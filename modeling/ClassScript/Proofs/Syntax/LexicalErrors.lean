/-
# Lexical errors reach the list of errors

A lexeme that is an error can be met anywhere in a parse: by a look at the next token,
between two statements, or while lexemes are skipped after a refusal. Wherever it is
met, it is handed on once. The invariant is `Orderly`: a parser takes tokens only, up
to the lexical error that it refuses with, and any other refusal names a place that it
has passed, between the lexemes it started at and those it has left. That place ends
where a token does, unless it is the end of the input, which no parser takes.

Key theorems: `orderly_declaration`, `recover_spec` for skipping, and
`parse_lexical_errors`: the lexical errors among all errors are those of the lexer, in its
order, and no error stands before the one reported ahead of it.
-/
import ClassScript.Proofs.Syntax.Acceptance
import ClassScript.Proofs.Token.Tiling

namespace ClassScript
namespace Parser

variable {α β : Type} {lo : Nat} {ends : Nat → Prop} {c c' : Cursor} {s : Span}

/-! ### The invariant -/

/-- The lexemes ahead of a cursor are in order from the character `lo` on, and if none is left, then
the last token ended there or later. The tokens ahead end at places in `ends`. -/
structure Ordered (lo : Nat) (ends : Nat → Prop) (c : Cursor) : Prop where
  rest : InOrder lo c.rest
  last : c.rest = [] → lo ≤ c.last.stop
  stops : ∀ t, .ok t ∈ c.rest → t.token ≠ .endOfInput → ends t.span.stop

/-- The span begins at `lo` or later, and not behind one of the lexemes `ls`, which are still ahead. -/
structure Passed (lo : Nat) (ls : List Lexeme) (s : Span) : Prop where
  begins : lo ≤ s.start
  ordered : s.start ≤ s.stop
  front : ∀ l ∈ ls, s.start ≤ l.span.start

theorem Passed.join {ls : List Lexeme} {t : Span} (hs : Passed lo ls s) (ht : Passed lo ls t) :
    Passed lo ls (s.join t) where
  begins := Nat.le_min.mpr ⟨hs.begins, ht.begins⟩
  ordered := calc
    min s.start t.start ≤ s.start := Nat.min_le_left ..
    _ ≤ s.stop := hs.ordered
    _ ≤ max s.stop t.stop := Nat.le_max_left ..
  front l hl := Nat.le_trans (Nat.min_le_left ..) (hs.front l hl)

theorem Passed.ahead {ls ls' : List Lexeme} (h : Passed lo ls s) (hls : ls' <:+ ls) :
    Passed lo ls' s :=
  ⟨h.begins, h.ordered, fun l hl => h.front l (hls.subset hl)⟩

/-- The span has been passed and ends where a token does. -/
def Covered (lo : Nat) (ends : Nat → Prop) (c : Cursor) (s : Span) : Prop :=
  Passed lo c.rest s ∧ ends s.stop

theorem Covered.join {t : Span} (hs : Covered lo ends c s) (ht : Covered lo ends c t) :
    Covered lo ends c (s.join t) := by
  refine ⟨hs.1.join ht.1, ?_⟩
  rcases Nat.le_total s.stop t.stop with h | h
  · simpa [Span.join, Nat.max_eq_right h] using ht.2
  · simpa [Span.join, Nat.max_eq_left h] using hs.2

/-- The token that is next. If none is left, then it is an end of the input behind the last one. -/
def Upcoming (c : Cursor) (t : PlacedToken) : Prop :=
  (c.rest = [] ∧ t = ⟨.endOfInput, .point c.last.stop, 0⟩) ∨ ∃ rest, c.rest = .ok t :: rest

/-- The input ends next, at the span `s`. -/
def EndsNext (c : Cursor) (s : Span) : Prop :=
  ∃ t, Upcoming c t ∧ t.token = .endOfInput ∧ t.span = s

/-- The next token has been passed, as far as its start goes. -/
theorem Ordered.upcoming {t : PlacedToken} (ho : Ordered lo ends c) (h : Upcoming c t) :
    Passed lo c.rest t.span := by
  rcases h with ⟨hc, rfl⟩ | ⟨rest, hc⟩
  · exact ⟨ho.last hc, Nat.le_refl _, by simp [hc]⟩
  · have hr := ho.rest
    rw [hc] at hr
    have hordered : t.span.start ≤ t.span.stop := by
      cases hr with
      | cons _ h2 _ _ => exact h2
    refine ⟨hr.le_start (.ok t) (by simp), hordered, ?_⟩
    rw [hc]
    intro l hl
    rcases List.mem_cons.mp hl with rfl | hl
    · exact Nat.le_refl _
    · exact hr.tail.le_start l hl

theorem Upcoming.rest {t : PlacedToken} (h : Upcoming c t) (ht : t.token ≠ .endOfInput) :
    ∃ rest, c.rest = .ok t :: rest := by
  rcases h with ⟨-, rfl⟩ | h
  · exact absurd rfl ht
  · exact h

theorem Ordered.covered {t : PlacedToken} (ho : Ordered lo ends c) (h : Upcoming c t)
    (ht : t.token ≠ .endOfInput) : Covered lo ends c t.span := by
  refine ⟨ho.upcoming h, ?_⟩
  obtain ⟨rest, hc⟩ := h.rest ht
  exact ho.stops t (by simp [hc]) ht

/-- What lies between two cursors are tokens, none of them the end of the input. -/
def TokensTo (c c' : Cursor) : Prop :=
  ∃ used : List PlacedToken, (∀ t ∈ used, t.token ≠ .endOfInput) ∧
    c.rest = used.map .ok ++ c'.rest

theorem TokensTo.refl (h : c'.rest = c.rest) : TokensTo c c' := ⟨[], by simp [h]⟩

theorem TokensTo.trans {c₁ : Cursor} (h : TokensTo c c₁) (h' : TokensTo c₁ c') : TokensTo c c' := by
  obtain ⟨u, hu, hc⟩ := h
  obtain ⟨v, hv, hc₁⟩ := h'
  exact ⟨u ++ v, List.forall_mem_append.mpr ⟨hu, hv⟩, by simp [hc, hc₁]⟩

theorem TokensTo.suffix (h : TokensTo c c') : c'.rest <:+ c.rest := by
  obtain ⟨u, -, hu⟩ := h
  exact ⟨_, hu.symm⟩

/-- A refusal: of the lexical error behind the tokens taken, which is taken too, or of something else
at a place that has been passed, which ends with a token or is the end of the input. -/
inductive Refuses (lo : Nat) (ends : Nat → Prop) (c : Cursor) : Refusal → Cursor → Prop
  | lexical {c' : Cursor} {e : LexError} (used : List PlacedToken) :
      c.rest = used.map .ok ++ .error e :: c'.rest → Refuses lo ends c ⟨.lexical e, e.span⟩ c'
  | other {c' : Cursor} {r : Refusal} :
      (∀ e, r.problem ≠ .lexical e) → TokensTo c c' → Passed lo c'.rest r.span →
      ends r.span.stop ∨ EndsNext c' r.span → Refuses lo ends c r c'

theorem Refuses.after {c₁ : Cursor} {r : Refusal} (hc : TokensTo c c₁)
    (h : Refuses lo ends c₁ r c') : Refuses lo ends c r c' := by
  cases h with
  | lexical used hu =>
    obtain ⟨u, -, hc⟩ := hc
    exact .lexical (u ++ used) (by simp [hc, hu])
  | other hr ht hp hs => exact .other hr (hc.trans ht) hp hs

/-- What is left behind a refusal is an end of what there was. -/
theorem Refuses.suffix {r : Refusal} (h : Refuses lo ends c r c') : c'.rest <:+ c.rest := by
  cases h with
  | @lexical _ e used hu => exact ⟨used.map .ok ++ [.error e], by simp [hu]⟩
  | other _ ht => exact ht.suffix

/-- An answer that keeps the order. The spans of the value, which `spans` gives, are covered. -/
def Reply.Orderly (lo : Nat) (ends : Nat → Prop) (c : Cursor) (spans : α → List Span) :
    Reply α → Prop
  | .ok a c' => TokensTo c c' ∧ Ordered lo ends c' ∧ ∀ s ∈ spans a, Covered lo ends c' s
  | .refused r c' => Refuses lo ends c r c'
  | .exhausted => True

theorem Reply.Orderly.after {spans : α → List Span} {c₁ : Cursor} (hc : TokensTo c c₁) :
    ∀ {r : Reply α}, Reply.Orderly lo ends c₁ spans r → Reply.Orderly lo ends c spans r
  | .ok _ _, h => ⟨hc.trans h.1, h.2⟩
  | .refused _ _, h => Refuses.after hc h
  | .exhausted, _ => trivial

/-- Where the lexemes are in order, the next token is `seen`, if that is one, and the spans `given`
are covered, the parser's answer keeps the order. -/
def Orderly (seen : Option PlacedToken) (given : List Span) (spans : α → List Span)
    (p : Parser α) : Prop :=
  ∀ lo ends c, Ordered lo ends c → (∀ t, seen = some t → Upcoming c t) →
    (∀ s ∈ given, Covered lo ends c s) → Reply.Orderly lo ends c spans (p c)

/-- No spans of the value are asked for. -/
def noSpans (_ : α) : List Span := []

/-- The span that comes with a value. -/
def second (r : α × Span) : List Span := [r.2]

/-! ### The steps -/

namespace Orderly

variable {seen : Option PlacedToken} {given : List Span} {spans : α → List Span}
  {spans' : β → List Span} {p : Parser α} {t : PlacedToken}

theorem pure (a : α) (h : spans a ⊆ given) : Orderly seen given spans (pure a) :=
  fun _ _ _ ho _ hg => ⟨.refl rfl, ho, fun s hs => hg s (h hs)⟩

theorem done (a : α) : Orderly seen given noSpans (Pure.pure a) := .pure a (by simp [noSpans])

theorem exhausted : Orderly seen given spans (exhausted : Parser α) := fun _ _ _ _ _ _ => trivial

theorem refuse {problem : SyntaxProblem} (hp : ∀ e, problem ≠ .lexical e) (h : s ∈ given) :
    Orderly seen given spans (refuse problem s : Parser α) :=
  fun _ _ _ _ _ hg => .other hp (.refl rfl) (hg s h).1 (.inl (hg s h).2)

/-- The next token may be refused even if it is the end of the input. -/
theorem refuseNext {problem : SyntaxProblem} (hp : ∀ e, problem ≠ .lexical e) :
    Orderly (some t) given spans (Parser.refuse problem t.span : Parser α) := by
  intro lo ends c ho hs _
  refine .other hp (.refl rfl) (ho.upcoming (hs t rfl)) ?_
  by_cases ht : t.token = .endOfInput
  · exact .inr ⟨t, hs t rfl, ht, rfl⟩
  · exact .inl (ho.covered (hs t rfl) ht).2

/-- What needs neither a token seen nor spans given needs none of those there are. -/
theorem any (h : Orderly none [] spans p) : Orderly seen given spans p :=
  fun lo ends c ho _ _ => h lo ends c ho (by simp) (by simp)

/-- A token seen that is not the end of the input is covered. -/
theorem known (ht : t.token ≠ .endOfInput) (h : Orderly (some t) (t.span :: given) spans p) :
    Orderly (some t) given spans p :=
  fun lo ends c ho hs hg =>
    h lo ends c ho hs (List.forall_mem_cons.mpr ⟨ho.covered (hs t rfl) ht, hg⟩)

/-- What follows may use the spans of the value, and what is known of every value. -/
theorem bind_of {P : α → Prop} {f : α → Parser β} (hp : Orderly seen given spans p)
    (hP : ∀ ⦃c a c'⦄, p c = .ok a c' → P a)
    (hf : ∀ a, P a → Orderly none (spans a ++ given) spans' (f a)) :
    Orderly seen given spans' (p >>= f) := by
  intro lo ends c ho hs hg
  have ha := hp lo ends c ho hs hg
  show Reply.Orderly lo ends c spans' (Parser.bind p f c)
  unfold Parser.bind
  cases hc : p c with
  | ok a c₁ =>
    rw [hc] at ha
    obtain ⟨ht, ho₁, hs⟩ := ha
    have hg₁ : ∀ s ∈ spans a ++ given, Covered lo ends c₁ s := by
      intro s hm
      rcases List.mem_append.mp hm with hm | hm
      · exact hs s hm
      · exact ⟨(hg s hm).1.ahead ht.suffix, (hg s hm).2⟩
    exact .after ht (hf a (hP hc) lo ends c₁ ho₁ (by simp) hg₁)
  | refused r c₁ => rw [hc] at ha; exact ha
  | exhausted => trivial

theorem bind {f : α → Parser β} (hp : Orderly seen given spans p)
    (hf : ∀ a, Orderly none (spans a ++ given) spans' (f a)) :
    Orderly seen given spans' (p >>= f) :=
  bind_of (P := fun _ => True) hp (fun _ _ _ _ => trivial) fun a _ => hf a

/-- A look at the next token. -/
theorem look {f : PlacedToken → Parser α} (h : ∀ t, Orderly (some t) given spans (f t)) :
    Orderly seen given spans (peek >>= f) := by
  intro lo ends c ho _ hg
  have hnext : ∀ t, Upcoming c t → Reply.Orderly lo ends c spans (f t c) := by
    intro t ht
    exact h t lo ends c ho (by rintro t' ⟨⟩; exact ht) hg
  show Reply.Orderly lo ends c spans (Parser.bind Parser.peek f c)
  unfold Parser.bind Parser.peek
  cases hc : c.rest with
  | nil => exact hnext _ (.inl ⟨hc, rfl⟩)
  | cons l rest =>
    cases l with
    | ok t => exact hnext t (.inr ⟨rest, hc⟩)
    | error e => exact .lexical [] (by simp [hc])

/-- A token seen that is not the end of the input can be taken. -/
theorem take {f : PlacedToken → Parser α} (ht : t.token ≠ .endOfInput)
    (h : ∀ u, Orderly none (t.span :: given) spans (f u)) :
    Orderly (some t) given spans (next >>= f) := by
  intro lo ends c ho hs hg
  have hcovered := ho.covered (hs t rfl) ht
  obtain ⟨rest, hc⟩ := (hs t rfl).rest ht
  have htokens : TokensTo c { c with rest, last := t.span } := ⟨[t], by simpa using ht, by simp [hc]⟩
  have hafter : Ordered lo ends { c with rest, last := t.span } := by
    have hr := ho.rest
    rw [hc] at hr
    cases hr with
    | cons h1 h2 _ h4 =>
      have hstop : lo ≤ t.span.stop := Nat.le_trans h1 h2
      exact ⟨h4.mono hstop, fun _ => hstop, fun u hu => ho.stops u (htokens.suffix.subset hu)⟩
  show Reply.Orderly lo ends c spans (Parser.bind Parser.next f c)
  unfold Parser.bind Parser.next
  rw [hc]
  refine .after htokens (h t lo ends _ hafter (by simp) (List.forall_mem_cons.mpr ⟨?_, ?_⟩))
  · exact ⟨hcovered.1.ahead htokens.suffix, hcovered.2⟩
  · exact fun s hm => ⟨(hg s hm).1.ahead htokens.suffix, (hg s hm).2⟩

theorem last : Orderly seen given noSpans last :=
  fun _ _ _ ho _ _ => ⟨.refl rfl, ho, by simp [noSpans]⟩

theorem mint (h : s ∈ given) : Orderly seen given (fun m => [m.span]) (mint s) :=
  fun _ _ _ ho _ hg =>
    ⟨.refl rfl, ⟨ho.rest, ho.last, ho.stops⟩, List.forall_mem_singleton.mpr (hg s h)⟩

/-- The smallest span that covers two given ones may be used as well. -/
theorem add_join {t : Span} (hs : s ∈ given) (ht : t ∈ given)
    (h : Orderly seen (s.join t :: given) spans p) : Orderly seen given spans p :=
  fun lo ends c ho hc hg =>
    h lo ends c ho hc (List.forall_mem_cons.mpr ⟨(hg s hs).join (hg t ht), hg⟩)

theorem mint_join {t : Span} (hs : s ∈ given) (ht : t ∈ given) :
    Orderly seen given (fun m => [m.span]) (Parser.mint (s.join t)) :=
  .add_join hs ht (.mint (by simp))

/-- Entering a construct takes no token. -/
theorem enter {k : Construct} {f : Unit → Parser α} (h : ∀ u, Orderly seen given spans (f u)) :
    Orderly seen given spans (enter k >>= f) := by
  intro lo ends c ho hs hg
  have htokens : TokensTo c { c with constructs := k :: c.constructs } := .refl rfl
  exact .after htokens (h () lo ends _ ⟨ho.rest, ho.last, ho.stops⟩ hs hg)

theorem leave : Orderly seen given noSpans leave :=
  fun _ _ _ ho _ _ => ⟨.refl rfl, ⟨ho.rest, ho.last, ho.stops⟩, by simp [noSpans]⟩

theorem within {k : Construct} (h : Orderly seen given spans p) :
    Orderly seen given spans (within k p) :=
  .enter fun _ => .bind h fun a => .bind .leave fun _ => .pure a (by simp [noSpans])

theorem ite {b : Prop} [Decidable b] {q : Parser α} (hp : b → Orderly seen given spans p)
    (hq : Orderly seen given spans q) : Orderly seen given spans (if b then p else q) := by
  split
  next hb => exact hp hb
  next => exact hq

theorem sees (sym : Symbol) : Orderly seen given noSpans (sees sym) :=
  .look fun _ => .done _

/-- A symbol is not the end of the input. -/
theorem inner {sym : Symbol} (h : isSymbol sym t = true) : t.token ≠ .endOfInput := by
  rw [isSymbol_iff.mp h]
  exact nofun

theorem takeIf (sym : Symbol) : Orderly seen given Option.toList (takeIf sym) :=
  .look fun t => .ite (fun h => .take (inner h) fun _ => .pure (some t.span) (by simp))
    (.pure none (by simp))

theorem expect (sym : Symbol) : Orderly seen given (fun s => [s]) (expect sym) :=
  .look fun t => .ite (fun h => .take (inner h) fun _ => .pure t.span (by simp))
    (.refuseNext (by simp))

theorem expectName : Orderly seen given (fun d => [d.span]) expectName := by
  refine .look fun t => ?_
  split
  next h => exact .take (by simp [h]) fun _ => .pure _ (by simp)
  next => exact .refuseNext (by simp)

/-- A list with too many items is refused at the place of the one too many. -/
theorem commaList {place : α → Span} {tooMany : SyntaxProblem} (ht : ∀ e, tooMany ≠ .lexical e)
    (h : Orderly none [] (fun a => [place a]) p) :
    ∀ (f : Nat) (found : List α) {given : List Span},
      Orderly none given noSpans (commaList p place tooMany f found)
  | 0, _, _ => .exhausted
  | f + 1, found, _ => by
    refine .bind h.any fun a => .ite (fun _ => .refuse ht (by simp)) (.bind (.takeIf _) fun o => ?_)
    cases o with
    | none => exact .done _
    | some => exact commaList ht h f _

theorem behind (sym : Symbol) (h : Orderly none [] spans p) :
    Orderly seen given noSpans (behind sym p) := by
  refine .bind (.takeIf _) fun o => ?_
  cases o with
  | none => exact .done _
  | some => exact .bind h.any fun _ => .done _

theorem unlessNext (sym : Symbol) (h : Orderly none [] spans p) :
    Orderly seen given noSpans (unlessNext sym p) :=
  .bind (.sees _) fun _ => .ite (fun _ => .done _)
    (.bind h.any fun _ => .done _)

theorem commaListBefore (sym : Symbol) {place : α → Span} {tooMany : SyntaxProblem}
    (ht : ∀ e, tooMany ≠ .lexical e) (h : Orderly none [] (fun a => [place a]) p) (f : Nat) :
    Orderly seen given second (commaListBefore sym p place tooMany f) :=
  .bind (.unlessNext _ (.commaList ht h _ _)) fun _ => .bind (.expect _) fun _ => .pure _ (by simp [second])

/-! ### Expressions -/

/-- The span of an expression. -/
def ofExpr (e : Expr) : List Span := [e.span]

theorem chain {Op : Type} {find : Token → Option Op} {build : Mark → Op → Expr → Expr → Expr}
    {operand : Parser Expr} (hfind : find .endOfInput = none)
    (hb : ∀ m op l r, (build m op l r).span = m.span) (h : Orderly none [] ofExpr operand) :
    ∀ (f : Nat) (left : Expr) {given : List Span},
      left.span ∈ given → Orderly none given ofExpr (chain operand find build f left)
  | 0, _, _, _ => .exhausted
  | f + 1, left, _, hl => by
    refine .look fun t => ?_
    split
    next => exact .pure _ (by simp [ofExpr, hl])
    next op hop =>
      refine .take (fun ht => by simp [ht, hfind] at hop) fun _ => .bind h.any fun _ =>
        .bind (.mint_join (by simp [hl]) (by simp [ofExpr])) fun m => ?_
      exact chain hfind hb h f _ (by simp [hb])

theorem operand {unary : Parser Expr} (h : Orderly none [] ofExpr unary) (f : Nat) :
    ∀ (level : Nat) {given : List Span}, Orderly none given ofExpr (operand unary f level)
  | 0, _ => h.any
  | level + 1, _ => .bind (operand h f level) fun _ =>
      .chain rfl (fun _ _ _ _ => rfl) (operand h f level) _ _ (by simp [ofExpr])

theorem logicalAnd {unary : Parser Expr} (h : Orderly none [] ofExpr unary) (f : Nat) :
    Orderly none given ofExpr (logicalAnd unary f) :=
  .bind (.operand h _ _) fun _ =>
    .chain rfl (fun _ _ _ _ => rfl) (.operand h _ _) _ _ (by simp [ofExpr])

theorem logicalOr {unary : Parser Expr} (h : Orderly none [] ofExpr unary) (f : Nat) :
    Orderly none given ofExpr (logicalOr unary f) :=
  .bind (.logicalAnd h _) fun _ =>
    .chain rfl (fun _ _ _ _ => rfl) (.logicalAnd h _) _ _ (by simp [ofExpr])

theorem leaf {build : Mark → Expr} (ht : t.token ≠ .endOfInput)
    (hb : ∀ m, (build m).span = m.span) :
    Orderly (some t) given ofExpr (leaf t.span build) :=
  .take ht fun _ => .bind (.mint (by simp)) fun _ => .pure _ (by simp [ofExpr, hb])

variable {expression : Parser Expr} {declaration statement : Parser Stmt}

theorem primary (h : Orderly none [] ofExpr expression) :
    Orderly seen given ofExpr (primary expression) := by
  refine .look fun t => ?_
  split
  any_goals
    rename_i ht
    exact .leaf (by simp [ht]) fun _ => rfl
  next ht =>
    have hinner : t.token ≠ .endOfInput := by simp [ht]
    refine .known hinner (.bind (.within (.take hinner fun _ => .bind (.expect _) fun _ =>
      .expectName)) fun _ => ?_)
    exact .bind (.mint_join (by simp) (by simp)) fun _ =>
      .pure _ (by simp [ofExpr, Expr.span, Expr.mark])
  next ht =>
    have hinner : t.token ≠ .endOfInput := by simp [ht]
    refine .known hinner (.bind (.within (.take hinner fun _ => .bind h.any fun _ =>
      .bind (.expect _) fun _ => (.pure _ (by simp [second]) : Orderly _ _ second _))) fun _ => ?_)
    exact .bind (.mint_join (by simp) (by simp [second])) fun _ =>
      .pure _ (by simp [ofExpr, Expr.span, Expr.mark])
  next => exact .refuseNext (by simp)

theorem arguments (h : Orderly none [] ofExpr expression) (f : Nat) :
    Orderly seen given second (arguments expression f) :=
  .commaListBefore _ (by simp) h _

theorem suffixes (h : Orderly none [] ofExpr expression) :
    ∀ (f : Nat) (e : Expr) {given : List Span},
      e.span ∈ given → Orderly none given ofExpr (suffixes expression f e)
  | 0, _, _, _ => .exhausted
  | f + 1, e, _, he => by
    refine .look fun t => ?_
    split
    next ht =>
      exact .bind (.within (.take (by simp [ht]) fun _ => .arguments h _)) fun _ =>
        .bind (.mint_join (by simp [he]) (by simp [second])) fun _ =>
          suffixes h f _ (by simp [Expr.span, Expr.mark])
    next ht =>
      exact .bind (.within (.take (by simp [ht]) fun _ => .expectName)) fun _ =>
        .bind (.mint_join (by simp [he]) (by simp)) fun _ =>
          suffixes h f _ (by simp [Expr.span, Expr.mark])
    next => exact .pure _ (by simp [ofExpr, he])

theorem call (h : Orderly none [] ofExpr expression) (f : Nat) :
    Orderly seen given ofExpr (call expression f) :=
  .bind (.primary h) fun _ => .suffixes h _ _ (by simp [ofExpr])

/-- What cannot be assigned to is refused at the equals sign. -/
theorem assignTo {target value : Expr} (h : s ∈ given) :
    Orderly seen given noSpans (assignTo target s value) := by
  unfold Parser.assignTo
  split
  · exact .done _
  · exact .done _
  · exact .refuse (by simp) h

end Orderly

theorem assignTo_span {target value : Expr} {build : Mark → Expr}
    (h : assignTo target s value c = .ok build c') (m : Mark) : (build m).span = m.span := by
  unfold assignTo at h
  change answer _ c = _ at h
  split at h
  · obtain ⟨rfl, -⟩ := pure_eq_ok.mp h
    rfl
  · obtain ⟨rfl, -⟩ := pure_eq_ok.mp h
    rfl
  · exact (refuse_eq_ok.mp h).elim

open Orderly (ofExpr)

mutual

theorem orderly_expression : ∀ f, Orderly none [] ofExpr (expression f)
  | 0 => .exhausted
  | f + 1 => by
    have h := Orderly.within (k := .expr) (orderly_assignment f)
    simpa only [expression, staged_eq] using h

theorem orderly_assignment : ∀ f, Orderly none [] ofExpr (assignment f)
  | 0 => .exhausted
  | f + 1 => by
    simp only [assignment, staged_eq]
    refine .bind (.logicalOr (orderly_unary f) _) fun target => .bind (.takeIf _) fun o => ?_
    cases o with
    | none => exact .pure _ (by simp [ofExpr])
    | some sign =>
      refine .bind_of (P := fun r => ∀ m, (r.1 m).span = m.span)
        (.within (.bind (orderly_assignment f).any fun value => ?_) : Orderly _ _ second _) ?_
        fun r hr => ?_
      · refine .bind (.assignTo (by simp)) fun build => ?_
        exact .add_join (s := target.span) (t := value.span) (by simp [ofExpr]) (by simp [ofExpr])
          (.pure _ (by simp [second]))
      · intro c r c' h
        simp only [within_eq_ok, bind_eq_ok, pure_eq_ok] at h
        obtain ⟨c₁, ⟨value, c₂, -, build, c₃, hb, rfl, -⟩, -⟩ := h
        exact assignTo_span hb
      · exact .bind (.mint (by simp [second])) fun _ => .pure _ (by simp [ofExpr, hr])

theorem orderly_unary : ∀ f, Orderly none [] ofExpr (unary f)
  | 0 => .exhausted
  | f + 1 => by
    simp only [unary, staged_eq]
    refine .look fun t => ?_
    split
    next op hop =>
      have hinner : t.token ≠ .endOfInput := fun ht => by simp [ht, UnaryOp.ofToken?] at hop
      exact .take hinner fun _ => .bind (orderly_unary f).any fun _ =>
        .bind (.mint_join (by simp) (by simp [ofExpr])) fun _ =>
          .pure _ (by simp [ofExpr, Expr.span, Expr.mark])
    next => exact .call (orderly_expression f) _

end

/-! ### Statements -/

namespace Orderly

variable {seen : Option PlacedToken} {given : List Span} {p : Parser α} {t : PlacedToken}
  {expression : Parser Expr} {declaration statement : Parser Stmt}

theorem upToBrace (h : Orderly none [] noSpans p) :
    ∀ (f : Nat) (found : List α) {given : List Span},
      Orderly none given noSpans (upToBrace p f found)
  | 0, _, _ => .exhausted
  | f + 1, _, _ => .look fun _ => .ite (fun _ => .done _) (.bind h.any fun _ => upToBrace h f _)

theorem block (h : Orderly none [] noSpans declaration) (f : Nat) :
    Orderly seen given noSpans (block declaration f) :=
  .within (.bind (.expect _) fun _ => .bind (.upToBrace h _ _) fun _ =>
    .bind (.expect _) fun _ => .done _)

theorem function (h : Orderly none [] noSpans declaration) (f : Nat) :
    Orderly seen given noSpans (function declaration f) :=
  .within (.bind .expectName fun _ => .bind (.expect _) fun _ =>
    .bind (.commaListBefore _ (by simp) .expectName _) fun _ => .bind (.block h _) fun _ => .done _)

theorem superclass : Orderly seen given noSpans superclass :=
  .bind .expectName fun _ => .bind (.mint (by simp)) fun _ => .done _

theorem classDecl (h : Orderly none [] noSpans declaration) (f : Nat) :
    Orderly seen given noSpans (classDecl declaration f) :=
  .within (.bind (.expect _) fun _ => .bind .expectName fun _ => .bind (.behind _ .superclass) fun _ =>
    .bind (.expect _) fun _ => .bind (.upToBrace (.function h _) _ _) fun _ =>
      .bind (.expect _) fun _ => .done _)

theorem funDecl (ht : t.token ≠ .endOfInput) (h : Orderly none [] noSpans declaration) (f : Nat) :
    Orderly (some t) given noSpans (funDecl declaration f) :=
  .take ht fun _ => .bind (.function h _) fun _ => .bind .last fun _ => .done _

theorem varDecl (h : Orderly none [] ofExpr expression) :
    Orderly seen given noSpans (varDecl expression) :=
  .within (.bind (.expect _) fun _ => .bind .expectName fun _ => .bind (.behind _ h) fun _ =>
    .bind (.expect _) fun _ => .done _)

theorem exprStmt (h : Orderly none [] ofExpr expression) :
    Orderly seen given noSpans (exprStmt expression) :=
  .within (.bind h.any fun _ => .bind (.expect _) fun _ => .done _)

theorem printStmt (h : Orderly none [] ofExpr expression) :
    Orderly seen given noSpans (printStmt expression) :=
  .within (.bind (.expect _) fun _ => .bind h.any fun _ => .bind (.expect _) fun _ => .done _)

theorem returnStmt (h : Orderly none [] ofExpr expression) :
    Orderly seen given noSpans (returnStmt expression) :=
  .within (.bind (.expect _) fun _ => .bind (.unlessNext _ h) fun _ =>
    .bind (.expect _) fun _ => .done _)

theorem ifStmt (he : Orderly none [] ofExpr expression) (hs : Orderly none [] noSpans statement) :
    Orderly seen given noSpans (ifStmt expression statement) :=
  .within (.bind (.expect _) fun _ => .bind (.expect _) fun _ => .bind he.any fun _ =>
    .bind (.expect _) fun _ => .bind hs.any fun _ => .bind (.behind _ hs) fun _ =>
      .bind .last fun _ => .done _)

theorem whileStmt (he : Orderly none [] ofExpr expression)
    (hs : Orderly none [] noSpans statement) :
    Orderly seen given noSpans (whileStmt expression statement) :=
  .within (.bind (.expect _) fun _ => .bind (.expect _) fun _ => .bind he.any fun _ =>
    .bind (.expect _) fun _ => .bind hs.any fun _ => .bind .last fun _ => .done _)

theorem forInit (h : Orderly none [] ofExpr expression) :
    Orderly seen given noSpans (forInit expression) := by
  refine .look fun t => ?_
  split
  next ht => exact .take (by simp [ht]) fun _ => .done _
  next => exact .bind (.varDecl h) fun _ => .done _
  next => exact .bind (.exprStmt h) fun _ => .done _

theorem forCondition (h : s ∈ given) : ∀ e, Orderly seen given noSpans (forCondition s e)
  | some _ => .done _
  | none => .bind (.mint h) fun _ => .done _

theorem forStmt (he : Orderly none [] ofExpr expression) (hs : Orderly none [] noSpans statement) :
    Orderly seen given noSpans (forStmt expression statement) :=
  .within (.bind (.expect _) fun _ => .bind (.expect _) fun _ => .bind (.forInit he) fun _ =>
    .bind (.unlessNext _ he) fun _ => .bind (.expect _) fun _ => .bind (.unlessNext _ he) fun _ =>
      .bind (.expect _) fun _ => .bind hs.any fun _ => .bind .last fun _ =>
        .bind (.forCondition (by simp) _) fun _ => .done _)

theorem blockStmt (h : Orderly none [] noSpans declaration) (f : Nat) :
    Orderly seen given noSpans (blockStmt declaration f) :=
  .look fun _ => .bind (.block h _) fun _ => .bind .last fun _ => .done _

end Orderly

mutual

/-- **A declaration takes tokens only, and what it refuses is the next lexical error or a place that
it has passed,** which ends with a token or is the end of the input. -/
theorem orderly_declaration : ∀ f, Orderly none [] noSpans (declaration f)
  | 0 => .exhausted
  | f + 1 => by
    simp only [declaration, staged_eq]
    refine .look fun t => ?_
    split
    next => exact .classDecl (orderly_declaration f) _
    next ht => exact .funDecl (by simp [ht]) (orderly_declaration f) _
    next => exact .varDecl (orderly_expression f)
    next => exact (orderly_statement f).any

theorem orderly_statement : ∀ f, Orderly none [] noSpans (statement f)
  | 0 => .exhausted
  | f + 1 => by
    simp only [statement, staged_eq]
    refine .look fun t => ?_
    split
    · exact .forStmt (orderly_expression f) (orderly_statement f)
    · exact .ifStmt (orderly_expression f) (orderly_statement f)
    · exact .printStmt (orderly_expression f)
    · exact .returnStmt (orderly_expression f)
    · exact .whileStmt (orderly_expression f) (orderly_statement f)
    · exact .blockStmt (orderly_declaration f) _
    · exact .exprStmt (orderly_expression f)

end
end Parser

/-! ### Skipping -/

/-- The errors among lexemes. -/
def lexicalErrors (ls : List Lexeme) : List LexError :=
  ls.filterMap fun
    | .error e => some e
    | .ok _ => none

@[simp] theorem lexicalErrors_nil : lexicalErrors [] = [] := rfl

@[simp] theorem lexicalErrors_ok (t : PlacedToken) (ls : List Lexeme) :
    lexicalErrors (.ok t :: ls) = lexicalErrors ls := rfl

@[simp] theorem lexicalErrors_error (e : LexError) (ls : List Lexeme) :
    lexicalErrors (.error e :: ls) = e :: lexicalErrors ls := rfl

@[simp] theorem lexicalErrors_append (ls ls' : List Lexeme) :
    lexicalErrors (ls ++ ls') = lexicalErrors ls ++ lexicalErrors ls' := List.filterMap_append ..

/-- Tokens in front add no errors. -/
theorem lexicalErrors_behind (ls : List Lexeme) : ∀ ts : List PlacedToken,
    lexicalErrors (ts.map .ok ++ ls) = lexicalErrors ls
  | [] => rfl
  | _ :: ts => lexicalErrors_behind ls ts

theorem mem_lexicalErrors {e : LexError} {ls : List Lexeme} :
    e ∈ lexicalErrors ls ↔ .error e ∈ ls := by
  induction ls with
  | nil => simp
  | cons l ls ih => cases l <;> simp [ih]

/-- **Skipping collects the errors among the lexemes skipped.** -/
theorem recover_spec (last : Span) (ls : List Lexeme) : ∃ skipped,
    ls = skipped ++ (recover last ls).rest ∧ (recover last ls).errors = lexicalErrors skipped := by
  fun_induction recover last ls with
  | case1 last => exact ⟨[], rfl, rfl⟩
  | case2 last e rest r ih =>
    obtain ⟨skipped, hs, he⟩ := ih
    exact ⟨.error e :: skipped, by simp [← hs, r], by simp [← he, r]⟩
  | case3 last t rest hend => exact ⟨[], rfl, rfl⟩
  | case4 last t rest hend hsemi => exact ⟨[.ok t], rfl, rfl⟩
  | case5 last t hend hsemi e rest r ih =>
    obtain ⟨skipped, hs, he⟩ := ih
    exact ⟨.ok t :: .error e :: skipped, by simp [← hs, r], by simp [← he, r]⟩
  | case6 last t hend hsemi u rest hopens => exact ⟨[.ok t], rfl, rfl⟩
  | case7 last t hend hsemi u rest hopens ih =>
    obtain ⟨skipped, hs, he⟩ := ih
    exact ⟨.ok t :: skipped, by simp [← hs], by simp [he]⟩
  | case8 last t hend hsemi => exact ⟨[.ok t], rfl, rfl⟩

theorem recover_length_le (last : Span) (ls : List Lexeme) :
    (recover last ls).rest.length ≤ ls.length := by
  obtain ⟨skipped, hs, -⟩ := recover_spec last ls
  have := congrArg List.length hs
  rw [List.length_append] at this
  omega

/-- A token in front that is not the end of the input is skipped. -/
theorem recover_length_lt (last : Span) {t : PlacedToken} (rest : List Lexeme)
    (ht : t.token ≠ .endOfInput) : (recover last (.ok t :: rest)).rest.length ≤ rest.length := by
  have hend : ¬ Parser.isEnd t = true := fun h => ht (Parser.isEnd_iff.mp h)
  unfold recover
  rw [if_neg hend]
  split
  · exact Nat.le_refl _
  · split
    next e rest' => exact Nat.le_succ_of_le (recover_length_le ..)
    next u rest' =>
      split
      · exact Nat.le_refl _
      · exact recover_length_le ..
    next => exact Nat.le_refl _

/-! ### Statement after statement -/

/-- The lexical error that a syntax error hands on. -/
def SyntaxProblem.lexical? : SyntaxProblem → Option LexError
  | .lexical e => some e
  | _ => none

theorem SyntaxProblem.lexical?_eq_none {problem : SyntaxProblem} (h : ∀ e, problem ≠ .lexical e) :
    problem.lexical? = none := by
  cases problem with
  | lexical e => exact absurd rfl (h e)
  | _ => rfl

theorem InOrder.of_le {lo hi : Nat} {ls : List Lexeme} (h : InOrder lo ls)
    (hle : ∀ l ∈ ls, hi ≤ l.span.start) : InOrder hi ls := by
  cases h with
  | nil => exact .nil
  | cons _ h2 h3 h4 => exact .cons (hle _ (by simp)) h2 h3 h4

/-- What follows a lexeme is in order from its start on. -/
theorem InOrder.from_mem {lo : Nat} {l : Lexeme} {ls : List Lexeme} :
    ∀ {xs : List Lexeme}, InOrder lo (xs ++ ls) → l ∈ xs → InOrder l.span.start ls
  | x :: xs, h, hl => by
    rcases List.mem_cons.mp hl with rfl | hl
    · exact h.tail.suffix
    · exact from_mem h.tail hl

theorem InOrder.lexicalErrors {lo : Nat} {ls : List Lexeme} (h : InOrder lo ls) :
    (lexicalErrors ls).Pairwise fun e e' => e.span.start ≤ e'.span.start := by
  induction h with
  | nil => exact .nil
  | @cons lo l ls h1 h2 h3 h4 ih =>
    cases l with
    | ok t => exact ih
    | error e =>
      refine .cons (fun e' he' => ?_) ih
      exact Nat.le_trans h2 (h4.le_start _ (mem_lexicalErrors.mp he'))

/-- What a refusal says of the lexemes: its own place lies between those taken and those left, and
it hands on the one lexical error among those taken. -/
theorem Parser.Refuses.accounts {lo : Nat} {ends : Nat → Prop} {c c' : Cursor} {r : Refusal}
    (ho : InOrder lo c.rest) (h : Parser.Refuses lo ends c r c') :
    lo ≤ r.span.start ∧ InOrder r.span.start c'.rest ∧
      ClassScript.lexicalErrors c.rest =
        r.problem.lexical?.toList ++ ClassScript.lexicalErrors c'.rest := by
  cases h with
  | @lexical _ e used hu =>
    rw [hu] at ho ⊢
    refine ⟨ho.le_start (.error e) (by simp), ho.suffix.tail, ?_⟩
    rw [lexicalErrors_behind]
    rfl
  | other hr ht hp =>
    obtain ⟨used, -, hu⟩ := ht
    rw [hu] at ho ⊢
    refine ⟨hp.begins, ho.suffix.of_le hp.front, ?_⟩
    rw [lexicalErrors_behind, SyntaxProblem.lexical?_eq_none hr]
    rfl

namespace Parse

variable {f n : Nat} {c c' : Cursor}

theorem statements_error {e : LexError} {rest : List Lexeme} (hc : c.rest = .error e :: rest) :
    (statements f (n + 1) c).errors = .atTopLevel e ::
      (statements f n { c with rest, constructs := [.topLevel] }).errors := by
  rw [statements]
  simp only [hc, errors]
  rfl

theorem statements_recovered {t : PlacedToken} {rest : List Lexeme} {r : Refusal}
    (hc : c.rest = .ok t :: rest) (ht : t.token ≠ .endOfInput)
    (hs : Parser.declaration f { c with constructs := [.topLevel] } = .refused r c') :
    (statements f (n + 1) c).errors =
      r.error c' :: ((recover c'.last c'.rest).errors.map .atTopLevel ++
        (statements f n { c' with
          rest := (recover c'.last c'.rest).rest, last := (recover c'.last c'.rest).last }).errors) := by
  have hend : ¬ Parser.isEnd t = true := fun h => ht (Parser.isEnd_iff.mp h)
  rw [hc] at hs
  rw [statements]
  simp only [hc, if_neg hend, hs, errors]
  simp [List.filterMap_map]

/-- The errors hand on the lexical errors `found`, and none of them stands before the one ahead of it. -/
structure Reports (found : List LexError) (es : List SyntaxError) : Prop where
  lexical : es.filterMap (·.problem.lexical?) = found
  ascending : es.Pairwise fun e e' => e.span.start ≤ e'.span.start

namespace Reports

variable {found : List LexError} {es : List SyntaxError}

theorem nil : Reports [] [] := ⟨rfl, .nil⟩

theorem cons {e : SyntaxError} (h : Reports found es)
    (hle : ∀ e' ∈ es, e.span.start ≤ e'.span.start) :
    Reports (e.problem.lexical?.toList ++ found) (e :: es) := by
  refine ⟨?_, .cons hle h.ascending⟩
  cases he : e.problem.lexical? <;> simp [he, h.lexical]

/-- Errors that were skipped may stand in front. -/
theorem skipped {errors : List LexError} (h : Reports found es)
    (hs : errors.Pairwise fun e e' => e.span.start ≤ e'.span.start)
    (hle : ∀ e ∈ errors, ∀ e' ∈ es, e.span.start ≤ e'.span.start) :
    Reports (errors ++ found) (errors.map .atTopLevel ++ es) := by
  refine ⟨?_, List.pairwise_append.mpr ⟨List.pairwise_map.mpr hs, h.ascending, ?_⟩⟩
  · have hown : (fun e => (SyntaxError.atTopLevel e).problem.lexical?) = some := rfl
    rw [List.filterMap_append, List.filterMap_map, h.lexical, Function.comp_def, hown,
      List.filterMap_some]
  · intro e he e' he'
    obtain ⟨x, hx, rfl⟩ := List.mem_map.mp he
    exact hle x hx e' he'

/-- A refusal, what is skipped behind it and what is reported later stand in order. -/
theorem refused {r : Refusal} {skipped rest : List Lexeme} (h : Reports (lexicalErrors rest) es)
    (ho : InOrder r.span.start (skipped ++ rest))
    (hle : ∀ {lo : Nat}, InOrder lo rest → ∀ e ∈ es, lo ≤ e.span.start) :
    Reports (r.problem.lexical?.toList ++ lexicalErrors (skipped ++ rest))
        (r.error c :: ((lexicalErrors skipped).map .atTopLevel ++ es)) ∧
      ∀ e ∈ r.error c :: ((lexicalErrors skipped).map .atTopLevel ++ es),
        r.span.start ≤ e.span.start := by
  have hsorted := ho.lexicalErrors
  rw [lexicalErrors_append] at hsorted ⊢
  have hbehind : ∀ e ∈ (lexicalErrors skipped).map .atTopLevel ++ es,
      r.span.start ≤ e.span.start := by
    intro e he
    rcases List.mem_append.mp he with he | he
    · obtain ⟨x, hx, rfl⟩ := List.mem_map.mp he
      exact ho.le_start _ (List.mem_append_left _ (mem_lexicalErrors.mp hx))
    · exact hle ho.suffix e he
  refine ⟨.cons (e := r.error c) (.skipped h (List.pairwise_append.mp hsorted).1 ?_) hbehind, ?_⟩
  · intro e he
    exact hle (ho.from_mem (mem_lexicalErrors.mp he))
  · exact List.forall_mem_cons.mpr ⟨Nat.le_refl _, hbehind⟩

end Reports

/-- A refusal at a declaration and what is skipped behind it take a lexeme at least. -/
theorem recover_progress {lo : Nat} {ends : Nat → Prop} {t : PlacedToken} {rest : List Lexeme}
    {r : Refusal} (hc : c.rest = .ok t :: rest) (ht : t.token ≠ .endOfInput)
    (h : Parser.Refuses lo ends c r c') :
    (recover c'.last c'.rest).rest.length ≤ rest.length := by
  have hle := recover_length_le c'.last c'.rest
  obtain ⟨taken, hsuf⟩ := h.suffix
  rw [hc] at hsuf
  cases taken with
  | nil =>
    rw [List.nil_append] at hsuf
    rw [hsuf]
    exact recover_length_lt _ rest ht
  | cons x taken =>
    have := congrArg List.length hsuf
    simp only [List.cons_append, List.length_cons, List.length_append] at this
    omega

/-- **Statement after statement, the lexical errors ahead are reported, each once and in order.** -/
theorem statements_report {f : Nat} : ∀ (n : Nat) (c : Cursor) {lo : Nat}, InOrder lo c.rest →
    c.rest.length < n → 3 * c.rest.length + 6 ≤ f →
    Reports (lexicalErrors c.rest) (statements f n c).errors ∧
      ∀ e ∈ (statements f n c).errors, lo ≤ e.span.start
  | n + 1, c, lo, ho, hn, hf => by
    cases hc : c.rest with
    | nil =>
      rw [errors, statements_nil hc]
      exact ⟨.nil, by simp⟩
    | cons l rest =>
      rw [hc] at ho hn hf
      simp only [List.length_cons] at hn hf
      cases l with
      | error e =>
        obtain ⟨hreports, hbound⟩ := statements_report (f := f) n
          { c with rest, constructs := [.topLevel] } ho.tail (by dsimp only; omega)
          (by dsimp only; omega)
        have hlo := ho.le_start (.error e) (by simp)
        rw [statements_error hc]
        refine ⟨hreports.cons (e := .atTopLevel e) hbound, ?_⟩
        intro e' he'
        rcases List.mem_cons.mp he' with rfl | he'
        · exact hlo
        · exact Nat.le_trans hlo (hbound e' he')
      | ok t =>
        by_cases ht : t.token = .endOfInput
        · -- nothing stands behind the end of the input
          have hrest : rest = [] := by
            cases ho with
            | cons _ _ h3 _ => exact h3 t rfl ht
          subst hrest
          rw [errors, statements_end hc ht]
          exact ⟨.nil, by simp⟩
        have horderly := Parser.orderly_declaration f lo (fun _ => True)
          { c with constructs := [.topLevel] } ⟨by rw [hc]; exact ho, by simp [hc], by simp⟩
          (by simp) (by simp)
        have hanswers := Parser.declaration_answers f (rest.length + 1) hf
          { c with constructs := [.topLevel] } (by simp [hc])
        cases hr : Parser.declaration f { c with constructs := [.topLevel] } with
        | ok s c' =>
          rw [hr] at horderly
          obtain ⟨⟨used, -, hused⟩, ho', -⟩ := horderly
          have heats := Parser.Eats.declaration f hr
          dsimp only at hused heats
          rw [hc] at hused heats
          simp only [List.length_cons] at heats
          obtain ⟨hreports, hbound⟩ := statements_report (f := f) n c' ho'.rest (by omega) (by omega)
          have herrors : (statements f (n + 1) c).errors = (statements f n c').errors := by
            rw [errors, statements_ok hc ht hr]
            rfl
          rw [herrors, hused, lexicalErrors_behind]
          exact ⟨hreports, hbound⟩
        | refused r c' =>
          rw [hr] at horderly
          have hrefuses : Parser.Refuses lo (fun _ => True) c r c' := by
            cases horderly with
            | lexical used hu => exact .lexical used hu
            | other hp ht hs he => exact .other hp ht hs he
          obtain ⟨hlo, hleft, hlexical⟩ := hrefuses.accounts (by rw [hc]; exact ho)
          have hprogress := recover_progress hc ht hrefuses
          obtain ⟨skipped, hskip, herrors⟩ := recover_spec c'.last c'.rest
          rw [hskip] at hleft hlexical
          have hnext : ∀ {lo : Nat}, InOrder lo (recover c'.last c'.rest).rest → _ := fun h =>
            statements_report (f := f) n
              { c' with rest := (recover c'.last c'.rest).rest, last := (recover c'.last c'.rest).last }
              h (by dsimp only; omega) (by dsimp only; omega)
          obtain ⟨hreports, hbound⟩ :=
            Reports.refused (c := c') (hnext hleft.suffix).1 hleft fun h => (hnext h).2
          rw [statements_recovered hc ht hr, ← hc, hlexical, herrors]
          exact ⟨hreports, fun e he => Nat.le_trans hlo (hbound e he)⟩
        | exhausted => exact absurd hr hanswers

end Parse

/-- **No lexical error is lost, invented or doubled by the parser.** Whatever the stream yields,
a text with a lexical error is no program, the lexical errors among the errors of the parse are
those of the lexer in its order, and no error begins before the one reported ahead of it. -/
theorem parse_lexical_errors (firstId : Nat) (s : CharStream) :
    ((∃ e, .error e ∈ s.lexemes) → ∃ es, (s.parse firstId).program = .error es) ∧
    ∀ es, (s.parse firstId).program = .error es →
      es.filterMap (·.problem.lexical?) = lexicalErrors s.lexemes ∧
      es.Pairwise fun e e' => e.span.start ≤ e'.span.start := by
  have hfuel := le_parseFuel s.lexemes.length
  obtain ⟨hreports, -⟩ := Parse.statements_report (f := parseFuel s.lexemes.length)
    (s.lexemes.length + 1) { rest := s.lexemes, nextId := firstId }
    (Lexer.lexemes_inOrder _ _) (by dsimp only; omega) (by dsimp only; omega)
  change Parse.Reports (lexicalErrors s.lexemes) (s.parse firstId).errors at hreports
  unfold Parse.program
  refine ⟨?_, ?_⟩
  · rintro ⟨e, he⟩
    have hne : (s.parse firstId).errors ≠ [] := by
      intro hnil
      have hlexical := hreports.lexical
      rw [hnil] at hlexical
      exact absurd (mem_lexicalErrors.mpr he) (by simp [← hlexical])
    exact ⟨_, if_neg (by simpa using hne)⟩
  · intro es h
    split at h
    · cases h
    · cases h
      exact ⟨hreports.lexical, hreports.ascending⟩

theorem parse_lexical_errors_stray_char : ∃ es,
    ((CharStream.ofString "@").parse 0).program = .error es ∧
      es.filterMap (·.problem.lexical?) = [⟨.unexpectedChar '@', ⟨0, 1⟩⟩] := by
  obtain ⟨es, hes⟩ := (parse_lexical_errors 0 (.ofString "@")).1
    ⟨⟨.unexpectedChar '@', ⟨0, 1⟩⟩, List.Mem.head _⟩
  exact ⟨es, hes, ((parse_lexical_errors 0 (.ofString "@")).2 es hes).1⟩

end ClassScript
