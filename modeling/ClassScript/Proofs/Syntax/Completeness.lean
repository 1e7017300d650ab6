/-
# An expression of the grammar is read

Where the tokens in front of a cursor are derived by a nonterminal, its parser does not
refuse, and if it has fuel enough it reads them and builds the tree of the derivation.
That holds if what follows does not go on with the construct: a parser takes as much as
it can. `Token.binding` orders the tokens that go on with an expression by how tightly
they bind, and `Rank.tightest` is the tightest of them that may follow a nonterminal.

The parsers that loop (`chain`, `suffixes`) are left-recursive rules of the grammar. For
these the induction is on the derivation with the rest of the loop as a continuation: it
is enough that the loop does what is wanted once it has read the whole derivation
(`Rank.more`).

Key definitions: `Reply.Meets`, `Faces`, `Continues`. Key theorems:
`Expression.continues`, `expression_completes`.
-/
import ClassScript.Proofs.Syntax.Totality

namespace ClassScript

/-- The answer is no refusal, and a value that meets `Q` if there is one. -/
def Reply.Meets {α : Type} (Q : α → Cursor → Prop) : Reply α → Prop
  | .ok a c => Q a c
  | .refused _ _ => False
  | .exhausted => True

namespace Parser

open Grammar

variable {α β : Type} {c c' : Cursor} {t : Token} {v w : List Token}

/-! ### Steps -/

/-- The lexemes left are the tokens `w`. -/
def Faces (c : Cursor) (w : List Token) : Prop :=
  ∃ ts : List PlacedToken, c.rest = ts.map .ok ∧ ts.map (·.token) = w

theorem meets_bind {p : Parser α} {f : α → Parser β} {P : α → Cursor → Prop}
    {Q : β → Cursor → Prop} (hp : (p c).Meets P) (hf : ∀ a c₁, P a c₁ → (f a c₁).Meets Q) :
    ((p >>= f) c).Meets Q := by
  show Reply.Meets Q (Parser.bind p f c)
  unfold Parser.bind
  cases hc : p c with
  | ok a c₁ => exact hf a c₁ (by rw [hc] at hp; exact hp)
  | refused => rw [hc] at hp; exact hp.elim
  | exhausted => trivial

theorem meets_mono {r : Reply α} {P Q : α → Cursor → Prop} (h : r.Meets P)
    (hPQ : ∀ a c, P a c → Q a c) : r.Meets Q := by
  cases r with
  | ok a c => exact hPQ a c h
  | refused => exact h
  | exhausted => trivial

theorem meets_within {k : Construct} {p : Parser α} {P : α → Prop}
    (h : (p { c with constructs := k :: c.constructs }).Meets fun a c₁ => P a ∧ Faces c₁ v) :
    (within k p c).Meets fun a c' => P a ∧ Faces c' v := by
  refine meets_bind (P := fun _ c₁ => c₁ = { c with constructs := k :: c.constructs }) rfl ?_
  rintro - c₁ rfl
  exact meets_bind h fun a c₂ hQ => hQ

theorem peek_meets (h : Faces c w) :
    (peek c).Meets fun t c' => t.token = w.headD .endOfInput ∧ c' = c := by
  obtain ⟨ts, hr, rfl⟩ := h
  unfold peek
  cases ts <;> rw [hr] <;> simp [Reply.Meets]

/-- Looking at a token that is there changes nothing. -/
theorem meets_peek {g : PlacedToken → Parser α} {Q : α → Cursor → Prop} (h : Faces c (t :: w))
    (hg : ∀ p : PlacedToken, p.token = t → (g p c).Meets Q) : ((peek >>= g) c).Meets Q := by
  refine meets_bind (peek_meets h) ?_
  rintro p c₁ ⟨hp, rfl⟩
  exact hg p hp

theorem next_meets (h : Faces c (t :: w)) : (next c).Meets fun _ c' => Faces c' w := by
  obtain ⟨ts, hr, ht⟩ := h
  obtain ⟨t, ts, rfl, -, hts⟩ := List.map_eq_cons_iff.mp ht
  unfold next
  rw [hr]
  exact ⟨ts, rfl, hts⟩

theorem mint_meets (span : Span) (h : Faces c w) : (mint span c).Meets fun _ c' => Faces c' w := h

theorem last_meets (h : Faces c w) : (last c).Meets fun _ c' => Faces c' w := h

theorem sees_meets (s : Symbol) (h : Faces c w) :
    (sees s c).Meets fun b c' => (b = true ↔ w.headD .endOfInput = .symbol s) ∧ c' = c := by
  refine meets_bind (peek_meets h) ?_
  rintro t c₁ ⟨ht, rfl⟩
  exact ⟨ht ▸ isSymbol_iff, rfl⟩

theorem expect_meets {s : Symbol} (h : Faces c (.symbol s :: w)) :
    (expect s c).Meets fun _ c' => Faces c' w := by
  refine meets_bind (peek_meets h) ?_
  rintro t c₁ ⟨ht, rfl⟩
  rw [if_pos (isSymbol_iff.mpr ht)]
  exact meets_bind (next_meets h) fun _ c₁ h₁ => h₁

theorem takeIf_some_meets {s : Symbol} (h : Faces c (.symbol s :: w)) :
    (takeIf s c).Meets fun o c' => (∃ span, o = some span) ∧ Faces c' w := by
  refine meets_bind (peek_meets h) ?_
  rintro t c₁ ⟨ht, rfl⟩
  rw [if_pos (isSymbol_iff.mpr ht)]
  exact meets_bind (next_meets h) fun _ c₁ h₁ => ⟨⟨_, rfl⟩, h₁⟩

theorem takeIf_none_meets {s : Symbol} (h : Faces c w) (hs : w.headD .endOfInput ≠ .symbol s) :
    (takeIf s c).Meets fun o c' => o = none ∧ c' = c := by
  refine meets_bind (peek_meets h) ?_
  rintro t c₁ ⟨ht, rfl⟩
  rw [if_neg (by rw [isSymbol_iff, ht]; exact hs)]
  exact ⟨rfl, rfl⟩

theorem expectName_meets {x : String} (h : Faces c (.name x :: w)) :
    (expectName c).Meets fun d c' => d.name = x ∧ Faces c' w := by
  refine meets_peek h fun t ht => ?_
  simp only [ht]
  exact meets_bind (next_meets h) fun _ c₁ h₁ => ⟨rfl, h₁⟩

section Combinators

variable {p : Parser α} {s : Symbol} {Q : α → Cursor → Prop}

theorem behind_none_meets (h : Faces c w) (hs : w.headD .endOfInput ≠ .symbol s) :
    (behind s p c).Meets fun o c' => o = none ∧ c' = c := by
  refine meets_bind (takeIf_none_meets h hs) ?_
  rintro o c₁ ⟨rfl, rfl⟩
  exact ⟨rfl, rfl⟩

theorem behind_some_meets (h : Faces c (.symbol s :: w)) (hp : ∀ c₁, Faces c₁ w → (p c₁).Meets Q) :
    (behind s p c).Meets fun o c' => ∃ a, o = some a ∧ Q a c' := by
  refine meets_bind (takeIf_some_meets h) ?_
  rintro o c₁ ⟨⟨span, rfl⟩, h₁⟩
  exact meets_bind (hp c₁ h₁) fun a c₂ hQ => ⟨a, rfl, hQ⟩

theorem unlessNext_none_meets (h : Faces c (.symbol s :: w)) :
    (unlessNext s p c).Meets fun o c' => o = none ∧ c' = c := by
  refine meets_bind (sees_meets s h) ?_
  rintro b c₁ ⟨hb, rfl⟩
  rw [if_pos (hb.mpr rfl)]
  exact ⟨rfl, rfl⟩

theorem unlessNext_some_meets (h : Faces c w) (hs : w.headD .endOfInput ≠ .symbol s)
    (hp : (p c).Meets Q) : (unlessNext s p c).Meets fun o c' => ∃ a, o = some a ∧ Q a c' := by
  refine meets_bind (sees_meets s h) ?_
  rintro b c₁ ⟨hb, rfl⟩
  rw [if_neg (fun h => hs (hb.mp h))]
  exact meets_bind hp fun a c₂ hQ => ⟨a, rfl, hQ⟩

end Combinators

/-- The parser reads `w`, and `g` of its value is `b`, whatever follows of which `F` holds. -/
def Completes (p : Parser α) (F : List Token → Prop) (w : List Token) (g : α → β) (b : β) : Prop :=
  ∀ ⦃c v⦄, F v → Faces c (w ++ v) → (p c).Meets fun a c' => g a = b ∧ Faces c' v

theorem commaList_meets {item : Parser α} {place : α → Span} {tooMany : SyntaxProblem}
    {F : List Token → Prop} {g : α → β} (hcomma : ∀ v, F (.symbol .comma :: v)) :
    ∀ (f : Nat) (x : List Token × β) (xs : List (List Token × β)) (found : List α) {c : Cursor},
      (∀ y ∈ x :: xs, Completes item F y.1 g y.2) →
      found.length + (x :: xs).length ≤ maxArguments → F v →
      v.headD .endOfInput ≠ .symbol .comma →
      Faces c (commaSeparated ((x :: xs).map Prod.fst) ++ v) →
      (commaList item place tooMany f found c).Meets fun as c' =>
        as.map g = found.reverse.map g ++ (x :: xs).map Prod.snd ∧ Faces c' v
  | 0, _, _, _, _, _, _, _, _, _ => trivial
  | f + 1, x, xs, found, c, hall, hlen, hF, hv, hc => by
    have hlt : ¬ maxArguments ≤ found.length := by
      simp only [List.length_cons] at hlen
      omega
    cases xs with
    | nil =>
      simp only [List.map_cons, List.map_nil, commaSeparated] at hc
      refine meets_bind (hall x (by simp) hF hc) ?_
      rintro a c₁ ⟨ha, h₁⟩
      rw [if_neg hlt]
      refine meets_bind (takeIf_none_meets h₁ hv) ?_
      rintro o c₂ ⟨rfl, rfl⟩
      exact ⟨by simp [ha], h₁⟩
    | cons y ys =>
      simp only [List.map_cons, commaSeparated, List.append_assoc, List.cons_append] at hc
      refine meets_bind (hall x (by simp) (hcomma _) hc) ?_
      rintro a c₁ ⟨ha, h₁⟩
      rw [if_neg hlt]
      refine meets_bind (takeIf_some_meets h₁) ?_
      rintro o c₂ ⟨⟨span, rfl⟩, h₂⟩
      refine meets_mono (commaList_meets hcomma f y ys (a :: found)
        (fun z hz => hall z (List.mem_cons_of_mem _ hz)) ?_ hF hv (by simpa using h₂)) ?_
      · simp only [List.length_cons] at hlen ⊢
        omega
      · rintro as c₃ ⟨has, h₃⟩
        exact ⟨by simp [has, ha], h₃⟩

theorem commaListBefore_meets {item : Parser α} {place : α → Span} {tooMany : SyntaxProblem}
    {F : List Token → Prop} {g : α → β} {s : Symbol} (hcomma : ∀ v, F (.symbol .comma :: v))
    (hs : ∀ v, F (.symbol s :: v)) (hne : s ≠ .comma) (f : Nat) (xs : List (List Token × β))
    (hall : ∀ y ∈ xs, Completes item F y.1 g y.2)
    (hhead : ∀ y ∈ xs, ∃ t u, y.1 = t :: u ∧ t ≠ .symbol s)
    (hlen : xs.length ≤ maxArguments)
    (hc : Faces c (commaSeparated (xs.map Prod.fst) ++ .symbol s :: v)) :
    (commaListBefore s item place tooMany f c).Meets fun p c' =>
      p.1.map g = xs.map Prod.snd ∧ Faces c' v := by
  cases xs with
  | nil =>
    refine meets_bind (unlessNext_none_meets hc) ?_
    rintro o c₁ ⟨rfl, rfl⟩
    exact meets_bind (expect_meets hc) fun _ c₂ h₂ => ⟨rfl, h₂⟩
  | cons x xs =>
    have hfront : (commaSeparated ((x :: xs).map Prod.fst) ++ .symbol s :: v).headD .endOfInput ≠
        .symbol s := by
      obtain ⟨t, u, hx, ht⟩ := hhead x (by simp)
      cases xs <;> simpa [commaSeparated, hx] using ht
    refine meets_bind (unlessNext_some_meets hc hfront (commaList_meets hcomma f x xs [] hall
      (by simpa using hlen) (hs v) (by simpa using hne) hc)) ?_
    rintro o c₁ ⟨as, rfl, has, h₁⟩
    refine meets_bind (expect_meets h₁) fun _ c₂ h₂ => ⟨?_, h₂⟩
    simpa using has

theorem upToBrace_meets {item : Parser α} {F : List Token → Prop} {g : α → β} :
    ∀ (f : Nat) (xs : List (List Token × β)) (found : List α) {c : Cursor},
      (∀ y ∈ xs, Completes item F y.1 g y.2) → (∀ v, F (.symbol .closeBrace :: v)) →
      (∀ y ∈ xs, ∃ t u, y.1 = t :: u ∧ t ≠ .symbol .closeBrace ∧ t ≠ .endOfInput ∧
        ∀ v, F (t :: v)) →
      Faces c ((xs.map Prod.fst).flatten ++ .symbol .closeBrace :: v) →
      (upToBrace item f found c).Meets fun as c' =>
        as.map g = found.reverse.map g ++ xs.map Prod.snd ∧ Faces c' (.symbol .closeBrace :: v)
  | 0, _, _, _, _, _, _, _ => trivial
  | f + 1, xs, found, c, hall, hF, hhead, hc => by
    refine meets_bind (peek_meets hc) ?_
    rintro t c₁ ⟨ht, rfl⟩
    cases xs with
    | nil =>
      rw [if_pos (by rw [(isSymbol_iff (t := t)).mpr ht]; rfl)]
      exact ⟨by simp, hc⟩
    | cons y ys =>
      simp only [List.map_cons, List.flatten_cons, List.append_assoc] at hc ht
      have hnext : F ((ys.map Prod.fst).flatten ++ .symbol .closeBrace :: v) := by
        cases ys with
        | nil => exact hF v
        | cons z zs =>
          obtain ⟨t', u, hz, -, -, hF'⟩ := hhead z (by simp)
          simpa [hz] using hF' _
      obtain ⟨t', u, hy, hbrace, hend, -⟩ := hhead y (by simp)
      rw [hy, List.cons_append, List.headD_cons] at ht
      rw [← ht] at hbrace hend
      rw [if_neg (by simpa [isSymbol_iff, isEnd_iff] using ⟨hbrace, hend⟩)]
      refine meets_bind (hall y (by simp) hnext hc) ?_
      rintro a c₂ ⟨ha, h₂⟩
      refine meets_mono (upToBrace_meets f ys (a :: found)
        (fun z hz => hall z (List.mem_cons_of_mem _ hz)) hF
        (fun z hz => hhead z (List.mem_cons_of_mem _ hz)) h₂) ?_
      rintro as c₃ ⟨has, h₃⟩
      exact ⟨by simp [has, ha], h₃⟩

/-! ### Expressions -/

end Parser

/-- How tightly a token binds that goes on with an expression, the tightest first. -/
def Token.binding : Token → Nat
  | .symbol .openParen | .symbol .dot => 0
  | .symbol .star | .symbol .slash => 1
  | .symbol .plus | .symbol .minus => 2
  | .symbol .less | .symbol .greater | .symbol .lessEqual | .symbol .greaterEqual => 3
  | .symbol .equalEqual | .symbol .bangEqual => 4
  | .symbol .andWord => 5
  | .symbol .orWord => 6
  | .symbol .equal => 7
  | _ => 8

/-- The tokens that an expression begins with. -/
def Token.beginsExpression : Token → Bool
  | .symbol .minus | .symbol .bang | .symbol .nilWord | .symbol .trueWord | .symbol .falseWord
  | .symbol .thisWord | .symbol .superWord | .symbol .openParen | .name _ | .text _
  | .number _ => true
  | _ => false

namespace Grammar

/-- The tightest token that may follow a nonterminal. A rule that loops may be followed by the
tokens it goes on with. -/
def Rank.tightest : Rank → Nat
  | .primary | .call => 0
  | .unary | .operand 0 => 1
  | .operand (n + 1) => n + 1
  | .and => 5
  | .or => 6
  | .assignment => 8

/-- The tightest token in front of which the parser of a nonterminal stops. -/
def Rank.closing : Rank → Nat
  | .primary => 0
  | .call | .unary => 1
  | .operand n => n + 1
  | .and => 6
  | .or => 7
  | .assignment => 8

/-- What follows binds no tighter than `n`. -/
def Follows (n : Nat) (v : List Token) : Prop := n ≤ (v.headD .endOfInput).binding

theorem Follows.mono {m n : Nat} {v : List Token} (h : Follows n v) (hm : m ≤ n) : Follows m v :=
  Nat.le_trans hm h

/-- What follows binds as its first token does. -/
theorem Follows.head (t : Token) (v : List Token) : Follows t.binding (t :: v) := Nat.le_refl _

theorem Expression.begins {r : Rank} {w : List Token} {e : Expr} (h : Expression r w e) :
    ∃ t u, w = t :: u ∧ t.beginsExpression = true ∧
      (r = .call ∨ r = .primary → UnaryOp.ofToken? t = none) := by
  induction h with
  | ofOr _ ih | ofAnd _ ih | ofOperand _ ih | lift _ ih | ofUnary _ ih | ofCall _ ih =>
    obtain ⟨t, u, rfl, ht, -⟩ := ih
    exact ⟨t, u, rfl, ht, by simp⟩
  | ofPrimary _ ih =>
    obtain ⟨t, u, rfl, ht, hu⟩ := ih
    exact ⟨t, u, rfl, ht, fun _ => hu (.inr rfl)⟩
  | set _ _ _ ih | or _ _ ih | and _ _ ih | binary _ _ _ _ ih =>
    obtain ⟨t, u, rfl, ht, -⟩ := ih
    exact ⟨t, _, List.cons_append, ht, by simp⟩
  | call _ _ _ _ ih | get _ _ ih =>
    obtain ⟨t, u, rfl, ht, hu⟩ := ih
    exact ⟨t, _, List.cons_append, ht, fun _ => hu (.inl rfl)⟩
  | unary op => exact ⟨_, _, rfl, by cases op <;> rfl, by simp⟩
  | constant h => exact ⟨_, _, rfl, by cases h <;> rfl, fun _ => by cases h <;> rfl⟩
  | assign | name | this | super | group => exact ⟨_, _, rfl, rfl, fun _ => rfl⟩

end Grammar

namespace Parser

open Grammar

/-- The parser of a nonterminal. -/
def ofRank (f : Nat) : Rank → Parser Expr
  | .assignment => assignment f
  | .or => logicalOr (unary f) f
  | .and => logicalAnd (unary f) f
  | .operand n => operand (unary f) f n
  | .unary => unary f
  | .call => call (expression f) f
  | .primary => primary (expression f)

/-- The rest of a loop, of `g` rounds at most, behind the expression `e`. -/
def more (f g : Nat) : Rank → Expr → Parser Expr
  | .or => chain (logicalAnd (unary f) f) (logicalOp? .or) Expr.logical g
  | .and => chain (operand (unary f) f BinaryOp.loosest) (logicalOp? .and) Expr.logical g
  | .operand (n + 1) =>
    chain (operand (unary f) f n) (BinaryOp.atLevel? (n + 1)) Expr.binary g
  | .call => suffixes (expression f) g
  | _ => fun e => pure e

/-- The value is the tree `e`, and the tokens `v` are left. -/
def Left (e : Expr) (v : List Token) (a : Expr) (c : Cursor) : Prop := a.bare = e ∧ Faces c v

/-- A loop stops in front of a token that it does not go on with. -/
theorem chain_stops {Op : Type} {operand : Parser Expr} {find : Token → Option Op}
    {build : Mark → Op → Expr → Expr → Expr} {c : Cursor} {v : List Token}
    (hfind : find (v.headD .endOfInput) = none) (hc : Faces c v) : ∀ (g : Nat) (e : Expr),
      (chain operand find build g e c).Meets (Left e.bare v)
  | 0, _ => trivial
  | g + 1, e => by
    refine meets_bind (peek_meets hc) ?_
    rintro t c₁ ⟨ht, rfl⟩
    simp only [ht, hfind]
    exact ⟨rfl, hc⟩

/-- A loop goes on with an operator and an operand. -/
theorem chain_goes_on {Op : Type} {operand : Parser Expr} {find : Token → Option Op}
    {build : Mark → Op → Expr → Expr → Expr} {op : Op} {l r : Expr} {t : Token} {c : Cursor}
    {w v : List Token} {Q : Expr → Cursor → Prop}
    (hbuild : ∀ m l r, (build m op l r).bare = build .blank op l.bare r.bare)
    (hfind : find t = some op)
    (ho : ∀ c, Faces c (w ++ v) → (operand c).Meets (Left r v))
    (hk : ∀ g e c, Left (build .blank op l r) v e c → (chain operand find build g e c).Meets Q)
    (hc : Faces c (t :: (w ++ v))) : ∀ (g : Nat) (e : Expr), e.bare = l →
      (chain operand find build g e c).Meets Q
  | 0, _, _ => trivial
  | g + 1, e, he => by
    refine meets_peek hc fun t' ht => ?_
    simp only [ht, hfind]
    refine meets_bind (next_meets hc) fun _ c₂ h₂ => ?_
    refine meets_bind (ho c₂ h₂) ?_
    rintro e' c₃ ⟨he', h₃⟩
    refine meets_bind (mint_meets _ h₃) fun m c₄ h₄ => ?_
    exact hk g _ c₄ ⟨by rw [hbuild, he, he'], h₄⟩

theorem level_eq_binding {t : Token} {op : BinaryOp} (h : BinaryOp.ofToken? t = some op) :
    op.level = t.binding := by
  unfold BinaryOp.ofToken? at h
  split at h <;> cases h <;> rfl

theorem atLevel_eq_none {n : Nat} {t : Token} (h : n < t.binding) :
    BinaryOp.atLevel? n t = none := by
  refine Option.filter_eq_none_iff.mpr fun op hop => ?_
  have := level_eq_binding hop
  simp only [beq_iff_eq]
  omega

theorem atLevel_symbol (op : BinaryOp) {n : Nat} (h : op.level = n) :
    BinaryOp.atLevel? n (.symbol op.symbol) = some op := by
  subst h
  cases op <;> rfl

theorem logicalOp_eq_none {op : LogicalOp} {t : Token}
    (h : t.binding ≠ (Token.symbol op.symbol).binding) : logicalOp? op t = none := by
  unfold logicalOp?
  split
  next s =>
    rw [if_neg]
    rintro rfl
    exact h rfl
  next => rfl

/-- The loop of a nonterminal stops in front of what does not go on with it. -/
theorem more_stops {r : Rank} {f g : Nat} {e : Expr} {c : Cursor} {v : List Token}
    (hv : Follows r.closing v) (hc : Faces c v) : (more f g r e c).Meets (Left e.bare v) := by
  unfold more
  split
  · refine chain_stops (logicalOp_eq_none ?_) hc g e
    exact Nat.ne_of_gt hv
  · refine chain_stops (logicalOp_eq_none ?_) hc g e
    exact Nat.ne_of_gt hv
  · exact chain_stops (atLevel_eq_none hv) hc g e
  · cases g with
    | zero => trivial
    | succ g =>
      refine meets_bind (peek_meets hc) ?_
      rintro t c₁ ⟨ht, rfl⟩
      have hpos : 0 < t.token.binding := ht ▸ hv
      show Reply.Meets _ (answer _ c₁)
      split
      next h => simp [h, Token.binding] at hpos
      next h => simp [h, Token.binding] at hpos
      next => exact ⟨rfl, hc⟩
  · exact ⟨rfl, hc⟩

/-- The parser of `r` reads `w` as `e`, if its loop then does what is wanted. -/
def Continues (r : Rank) (w : List Token) (e : Expr) : Prop :=
  ∀ ⦃f c v Q⦄, Follows r.tightest v → Faces c (w ++ v) →
    (∀ g a c₁, Left e v a c₁ → (more f g r a c₁).Meets Q) → (ofRank f r c).Meets Q

theorem tightest_le_closing (r : Rank) : r.tightest ≤ r.closing := by
  unfold Rank.tightest Rank.closing
  split <;> simp

namespace Continues

variable {u w : List Token} {e l r : Expr}

/-- The parser reads `w` as `e` in front of what does not go on with it. -/
theorem complete {k : Rank} (h : Continues k w e) {f : Nat} {c : Cursor} {v : List Token}
    (hv : Follows k.closing v) (hc : Faces c (w ++ v)) : (ofRank f k c).Meets (Left e v) := by
  refine h (hv.mono (tightest_le_closing k)) hc fun g a c₁ ha => ?_
  exact ha.1 ▸ more_stops hv ha.2

theorem expression (h : Continues .assignment w e) {f : Nat} {c : Cursor} {v : List Token}
    (hv : Follows 8 v) (hc : Faces c (w ++ v)) : (expression f c).Meets (Left e v) := by
  cases f with
  | zero => trivial
  | succ f =>
    simp only [Parser.expression, staged_eq]
    exact meets_within (h.complete (f := f) hv hc)

/-! #### From a nonterminal to the one above -/

theorem ofPrimary (h : Continues .primary w e) : Continues .call w e := by
  intro f c v Q hv hc hk
  exact meets_bind (h.complete hv hc) (hk f)

theorem ofCall (h : Continues .call w e) (hw : ∃ t u, w = t :: u ∧ UnaryOp.ofToken? t = none) :
    Continues .unary w e := by
  intro f c v Q hv hc hk
  cases f with
  | zero => trivial
  | succ f =>
    simp only [ofRank, unary, staged_eq]
    refine meets_bind (peek_meets hc) ?_
    rintro t c₁ ⟨ht, rfl⟩
    obtain ⟨t', u, rfl, hop⟩ := hw
    rw [List.cons_append, List.headD_cons] at ht
    simp only [ht, hop]
    exact meets_mono (h.complete (f := f) hv hc) (hk f)

theorem ofUnary (h : Continues .unary w e) : Continues (.operand 0) w e :=
  fun f _ _ _ hv hc hk => h (f := f) hv hc hk

theorem lift {n : Nat} (h : Continues (.operand n) w e) : Continues (.operand (n + 1)) w e := by
  intro f c v Q hv hc hk
  exact meets_bind (h.complete hv hc) (hk f)

theorem ofOperand (h : Continues (.operand BinaryOp.loosest) w e) : Continues .and w e := by
  intro f c v Q hv hc hk
  exact meets_bind (h.complete hv hc) (hk f)

theorem ofAnd (h : Continues .and w e) : Continues .or w e := by
  intro f c v Q hv hc hk
  exact meets_bind (h.complete hv hc) (hk f)

theorem ofOr (h : Continues .or w e) : Continues .assignment w e := by
  intro f c v Q hv hc hk
  cases f with
  | zero => trivial
  | succ f =>
    simp only [ofRank, assignment, staged_eq]
    have hor : (logicalOr (Parser.unary f) f c).Meets (Left e v) :=
      h.complete (f := f) (hv.mono (by decide)) hc
    refine meets_bind hor ?_
    rintro a c₁ ⟨ha, h₁⟩
    have hne : v.headD .endOfInput ≠ .symbol .equal := fun h => by
      rw [Follows, h] at hv
      exact absurd hv (by decide)
    refine meets_bind (takeIf_none_meets h₁ hne) ?_
    rintro o c₂ ⟨rfl, rfl⟩
    exact hk f a c₂ ⟨ha, h₁⟩

/-- A call is all that is above it, up to an assignment. -/
theorem or_of_call (h : Continues .call w e)
    (hw : ∃ t u, w = t :: u ∧ UnaryOp.ofToken? t = none) : Continues .or w e :=
  ((h.ofCall hw).ofUnary.lift.lift.lift.lift).ofOperand.ofAnd

/-! #### Operators -/

theorem or (hl : Continues .or u l) (hr : Continues .and w r) :
    Continues .or (u ++ .symbol .orWord :: w) (.logical .blank .or l r) := by
  intro f c v Q hv hc hk
  rw [List.append_assoc, List.cons_append] at hc
  have hop : logicalOp? .or (.symbol .orWord) = some .or := rfl
  refine hl (.head (.symbol .orWord) _) hc fun g a c₁ ha => ?_
  exact chain_goes_on (fun _ _ _ => rfl) hop (fun c => hr.complete (f := f) hv) hk ha.2 g a ha.1

theorem and (hl : Continues .and u l) (hr : Continues (.operand BinaryOp.loosest) w r) :
    Continues .and (u ++ .symbol .andWord :: w) (.logical .blank .and l r) := by
  intro f c v Q hv hc hk
  rw [List.append_assoc, List.cons_append] at hc
  have hop : logicalOp? .and (.symbol .andWord) = some .and := rfl
  refine hl (.head (.symbol .andWord) _) hc fun g a c₁ ha => ?_
  exact chain_goes_on (fun _ _ _ => rfl) hop (fun c => hr.complete (f := f) hv) hk ha.2 g a ha.1

theorem binary {n : Nat} (op : BinaryOp) (hop : op.level = n + 1)
    (hl : Continues (.operand (n + 1)) u l) (hr : Continues (.operand n) w r) :
    Continues (.operand (n + 1)) (u ++ .symbol op.symbol :: w) (.binary .blank op l r) := by
  intro f c v Q hv hc hk
  rw [List.append_assoc, List.cons_append] at hc
  have hsym : Follows (n + 1) (.symbol op.symbol :: (w ++ v)) := by
    rw [← hop]
    cases op <;> exact Nat.le_refl _
  refine hl hsym hc fun g a c₁ ha => ?_
  exact chain_goes_on (fun _ _ _ => rfl) (atLevel_symbol op hop) (fun c => hr.complete hv) hk ha.2
    g a ha.1

theorem unary (op : UnaryOp) (h : Continues .unary w e) :
    Continues .unary (.symbol op.symbol :: w) (.unary .blank op e) := by
  intro f c v Q hv hc hk
  cases f with
  | zero => trivial
  | succ f =>
    simp only [ofRank, Parser.unary, staged_eq]
    refine meets_peek hc fun t ht => ?_
    have hop : UnaryOp.ofToken? t.token = some op := by
      rw [ht]
      cases op <;> rfl
    simp only [hop]
    refine meets_bind (next_meets hc) fun _ c₂ h₂ => ?_
    refine meets_bind (h.complete (f := f) hv h₂) ?_
    rintro a c₃ ⟨ha, h₃⟩
    refine meets_bind (mint_meets _ h₃) fun m c₄ h₄ => ?_
    exact hk f _ c₄ ⟨by rw [Expr.bare, ha], h₄⟩

/-! #### Calls -/

theorem call {callee : Expr} (args : List (List Token × Expr)) (hu : Continues .call u callee)
    (hlen : args.length ≤ maxArguments) (hall : ∀ a ∈ args, Continues .assignment a.1 a.2)
    (hbegins : ∀ a ∈ args, ∃ t u, a.1 = t :: u ∧ t ≠ .symbol .closeParen) :
    Continues .call
      (u ++ .symbol .openParen :: (commaSeparated (args.map Prod.fst) ++ [.symbol .closeParen]))
      (.call .blank callee (args.map Prod.snd)) := by
  intro f c v Q hv hc hk
  simp only [List.append_assoc, List.cons_append, List.nil_append] at hc
  refine hu (Nat.zero_le _) hc fun g a c₁ ha => ?_
  cases g with
  | zero => trivial
  | succ g =>
    refine meets_peek ha.2 fun t ht => ?_
    simp only [ht]
    have hargs : ∀ c₃, Faces c₃ (commaSeparated (args.map Prod.fst) ++ .symbol .closeParen :: v) →
        (arguments (Parser.expression f) g c₃).Meets fun p c' =>
          p.1.map Expr.bare = args.map Prod.snd ∧ Faces c' v := fun c₃ h₃ =>
      commaListBefore_meets (F := Follows 8) (.head (.symbol .comma))
        (.head (.symbol .closeParen))
        (by simp) g args (fun y hy c v hv hc => (hall y hy).expression hv hc) hbegins hlen h₃
    refine meets_bind (meets_within (meets_bind (next_meets ha.2) fun _ c₃ h₃ =>
      hargs c₃ h₃)) ?_
    rintro p c₃ ⟨hp, h₃⟩
    refine meets_bind (mint_meets _ h₃) fun m c₄ h₄ => ?_
    exact hk g _ c₄ ⟨by rw [Expr.bare, ha.1, Expr.bareOf_eq_map, hp], h₄⟩

theorem get {o : Expr} (x : String) (hu : Continues .call u o) :
    Continues .call (u ++ [.symbol .dot, .name x]) (.get .blank o x) := by
  intro f c v Q hv hc hk
  simp only [List.append_assoc, List.cons_append, List.nil_append] at hc
  refine hu (Nat.zero_le _) hc fun g a c₁ ha => ?_
  cases g with
  | zero => trivial
  | succ g =>
    refine meets_peek ha.2 fun t ht => ?_
    simp only [ht]
    refine meets_bind (meets_within (meets_bind (next_meets ha.2) fun _ c₃ h₃ =>
      expectName_meets h₃)) ?_
    rintro d c₃ ⟨hd, h₃⟩
    refine meets_bind (mint_meets _ h₃) fun m c₄ h₄ => ?_
    exact hk g _ c₄ ⟨by rw [Expr.bare, ha.1, hd], h₄⟩

/-! #### Primary expressions -/

theorem leaf {t : Token} {build : Mark → Expr} {c : Cursor} {v : List Token}
    {span : Span} {Q : Expr → Cursor → Prop} (hc : Faces c (t :: v))
    (hk : ∀ m c₁, Faces c₁ v → Q (build m) c₁) : (leaf span build c).Meets Q :=
  meets_bind (next_meets hc) fun _ _ h₁ => meets_bind (mint_meets _ h₁) fun m c₂ h₂ => hk m c₂ h₂

theorem constant {t : Token} {a : Literal} (h : Constant t a) :
    Continues .primary [t] (.literal .blank a) := by
  intro f c v Q hv hc hk
  refine meets_peek hc fun t' ht => ?_
  have hleaf (span : Span) : (Parser.leaf span (.literal · a) c).Meets Q :=
    leaf hc fun m c₂ h₂ => hk f _ c₂ ⟨rfl, h₂⟩
  cases h <;> simp only [ht] <;> exact hleaf _

theorem name (x : String) : Continues .primary [.name x] (.variable .blank x) := by
  intro f c v Q hv hc hk
  refine meets_peek hc fun t ht => ?_
  simp only [ht]
  exact leaf hc fun m c₂ h₂ => hk f _ c₂ ⟨rfl, h₂⟩

theorem this : Continues .primary [.symbol .thisWord] (.this .blank) := by
  intro f c v Q hv hc hk
  refine meets_peek hc fun t ht => ?_
  simp only [ht]
  exact leaf hc fun m c₂ h₂ => hk f _ c₂ ⟨rfl, h₂⟩

theorem super (x : String) :
    Continues .primary [.symbol .superWord, .symbol .dot, .name x] (.super .blank x) := by
  intro f c v Q hv hc hk
  refine meets_peek hc fun t ht => ?_
  simp only [ht]
  refine meets_bind (meets_within (meets_bind (next_meets hc) fun _ c₂ h₂ =>
    meets_bind (expect_meets h₂) fun _ c₃ h₃ => expectName_meets h₃)) ?_
  rintro d c₂ ⟨hd, h₂⟩
  refine meets_bind (mint_meets _ h₂) fun m c₃ h₃ => ?_
  exact hk f _ c₃ ⟨by rw [Expr.bare, hd], h₃⟩

theorem group (h : Continues .assignment w e) :
    Continues .primary (.symbol .openParen :: (w ++ [.symbol .closeParen])) (.group .blank e) := by
  intro f c v Q hv hc hk
  simp only [List.append_assoc, List.cons_append, List.nil_append] at hc
  refine meets_peek hc fun t ht => ?_
  simp only [ht]
  have hinner : (within .group (do
      let _ ← next
      let inner ← Parser.expression f
      let stop ← expect .closeParen
      pure (inner, stop)) c).Meets fun p c' => p.1.bare = e ∧ Faces c' v := by
    refine meets_within (meets_bind (next_meets hc) fun _ c₂ h₂ => ?_)
    refine meets_bind (h.expression (.head (.symbol .closeParen) _) h₂) ?_
    rintro a c₃ ⟨ha, h₃⟩
    exact meets_bind (expect_meets h₃) fun _ c₄ h₄ => ⟨ha, h₄⟩
  refine meets_bind hinner ?_
  rintro p c₂ ⟨hp, h₂⟩
  refine meets_bind (mint_meets _ h₂) fun m c₃ h₃ => ?_
  exact hk f _ c₃ ⟨by rw [Expr.bare, hp], h₃⟩

/-! #### Assignments -/

/-- An assignment is read as an expression, an equals sign and the value. -/
theorem assignment {target e' : Expr} (ht : Continues .or u target) (h : Continues .assignment w e)
    (hto : ∀ a b sign c, a.bare = target → b.bare = e →
      (assignTo a sign b c).Meets fun build c' => (∀ m, (build m).bare = e') ∧ c' = c) :
    Continues .assignment (u ++ .symbol .equal :: w) e' := by
  intro f c v Q hv hc hk
  cases f with
  | zero => trivial
  | succ f =>
    rw [List.append_assoc, List.cons_append] at hc
    simp only [ofRank, Parser.assignment, staged_eq]
    have hor : (logicalOr (Parser.unary f) f c).Meets (Left target (.symbol .equal :: (w ++ v))) :=
      ht.complete (f := f) (.head (.symbol .equal) _) hc
    refine meets_bind hor ?_
    rintro a c₁ ⟨ha, h₁⟩
    refine meets_bind (takeIf_some_meets h₁) ?_
    rintro o c₂ ⟨⟨sign, rfl⟩, h₂⟩
    have hvalue : (within .assignment (do
        let value ← Parser.assignment f
        let build ← assignTo a sign value
        pure (build, a.span.join value.span)) c₂).Meets fun p c' =>
          (∀ m, (p.1 m).bare = e') ∧ Faces c' v := by
      refine meets_within (meets_bind (h.complete (f := f) hv h₂) ?_)
      rintro b c₃ ⟨hb, h₃⟩
      refine meets_bind (hto a b sign c₃ ha hb) ?_
      rintro build c₄ ⟨hbuild, rfl⟩
      exact ⟨hbuild, h₃⟩
    refine meets_bind hvalue ?_
    rintro p c₃ ⟨hp, h₃⟩
    refine meets_bind (mint_meets _ h₃) fun m c₄ h₄ => ?_
    exact hk f _ c₄ ⟨hp m, h₄⟩

theorem assign (x : String) (h : Continues .assignment w e) :
    Continues .assignment (.name x :: .symbol .equal :: w) (.assign .blank x e) := by
  refine assignment ((name x).ofPrimary.or_of_call ⟨_, _, rfl, rfl⟩) h ?_
  rintro a b sign c ha rfl
  cases a <;> cases ha
  exact ⟨fun _ => rfl, rfl⟩

theorem set {o : Expr} (x : String) (hu : Continues .call u o)
    (hbegins : ∃ t u', u = t :: u' ∧ UnaryOp.ofToken? t = none) (h : Continues .assignment w e) :
    Continues .assignment (u ++ .symbol .dot :: .name x :: .symbol .equal :: w)
      (.set .blank o x e) := by
  have htarget : Continues .or (u ++ [.symbol .dot, .name x]) (.get .blank o x) := by
    refine (hu.get x).or_of_call ?_
    obtain ⟨t, u', rfl, ht⟩ := hbegins
    exact ⟨t, _, rfl, ht⟩
  have hset : Continues .assignment ((u ++ [.symbol .dot, .name x]) ++ .symbol .equal :: w)
      (.set .blank o x e) := by
    refine assignment htarget h ?_
    rintro a b sign c ha rfl
    cases a <;> cases ha
    exact ⟨fun _ => rfl, rfl⟩
  simpa using hset

end Continues

/-- **A derivation is read** as the tree it has. -/
theorem Expression.continues {r : Rank} {w : List Token} {e : Expr} (h : Expression r w e) :
    Continues r w e := by
  induction h with
  | assign x _ ih => exact ih.assign x
  | set x ho _ iho ih =>
    obtain ⟨t, u, hu, -, ht⟩ := ho.begins
    exact iho.set x ⟨t, u, hu, ht (.inl rfl)⟩ ih
  | ofOr _ ih => exact ih.ofOr
  | ofAnd _ ih => exact ih.ofAnd
  | or _ _ ihl ihr => exact ihl.or ihr
  | ofOperand _ ih => exact ih.ofOperand
  | and _ _ ihl ihr => exact ihl.and ihr
  | lift _ ih => exact ih.lift
  | binary op hop _ _ ihl ihr => exact ihl.binary op hop ihr
  | ofUnary _ ih => exact ih.ofUnary
  | unary op _ ih => exact ih.unary op
  | ofCall h ih =>
    obtain ⟨t, u, hu, -, ht⟩ := h.begins
    exact ih.ofCall ⟨t, u, hu, ht (.inl rfl)⟩
  | ofPrimary _ ih => exact ih.ofPrimary
  | call args _ hlen hargs ihu ih =>
    refine ihu.call args hlen ih fun a ha => ?_
    obtain ⟨t, u, hu, ht, -⟩ := (hargs a ha).begins
    exact ⟨t, u, hu, by rintro rfl; simp [Token.beginsExpression] at ht⟩
  | get x _ ih => exact ih.get x
  | constant h => exact .constant h
  | name x => exact .name x
  | this => exact .this
  | super x => exact .super x
  | group _ ih => exact ih.group

theorem expression_completes {w : List Token} {e : Expr} (h : Expression .assignment w e)
    (f : Nat) : Completes (expression f) (Follows 8) w Expr.bare e :=
  fun _ _ hv hc => (Expression.continues h).expression hv hc

end Parser
end ClassScript
