/-
# The parser covers the text

Whenever a parser of the grammar succeeds, the tokens that it has passed are those of its tree, and
each node of the tree spans its text. There is one lemma for each nonterminal. The span of a node is
the join of what is read first and what is read last, and looking ahead does not disturb the span of
the last token read, which is what some nodes end with.

Key theorems: `expression_lays`, `declaration_lays`, `spans_are_texts`.
-/
import ClassScript.Proofs.Syntax.Extents
import ClassScript.Proofs.Syntax.Places
import ClassScript.Proofs.Token.Tiling

namespace ClassScript

open Extent

/-- Tokens in order stand in line. -/
theorem InOrder.inLine {lo : Nat} {ts : List PlacedToken} {ls : List Lexeme}
    (h : InOrder lo (ts.map .ok ++ ls)) : InLine ts := by
  induction ts generalizing lo with
  | nil => exact ⟨by simp, .nil⟩
  | cons t ts ih =>
    cases h with
    | cons hlo hforward _ htail =>
      obtain ⟨hall, hapart⟩ := ih htail
      refine ⟨List.forall_mem_cons.mpr ⟨hforward, hall⟩,
        List.pairwise_cons.mpr ⟨fun u hu => ?_, hapart⟩⟩
      exact htail.le_start (.ok u) (List.mem_append_left _ (List.mem_map_of_mem hu))

/-- The lexemes ahead of a cursor stand in order. -/
def Cursor.Ordered (c : Cursor) : Prop := ∃ lo, InOrder lo c.rest

namespace Parser

variable {α : Type} {c c' c₁ : Cursor} {ts us vs ws : List PlacedToken} {ps qs : List Part}
  {t : PlacedToken} {s span : Span} {n : Node}

/-- The cursor `c` has passed the tokens `ts`, which are those of the pieces `ps`. -/
structure Passes (c : Cursor) (ts : List PlacedToken) (ps : List Part) (c' : Cursor) : Prop where
  order : c.Ordered
  rest : c.rest = ts.map .ok ++ c'.rest
  last : c'.last = (ts.getLast?.map (·.span)).getD c.last
  inner : ∀ t ∈ ts, t.token ≠ .endOfInput
  covers : Covers ts ps

namespace Passes

theorem after (h : Passes c ts ps c') : c'.Ordered := by
  obtain ⟨lo, ho⟩ := h.order
  rw [h.rest] at ho
  exact ⟨lo, ho.suffix⟩

theorem inLine (h : Passes c ts ps c') : InLine ts := by
  obtain ⟨lo, ho⟩ := h.order
  rw [h.rest] at ho
  exact ho.inLine

theorem refl (ho : c.Ordered) : Passes c [] [] c := ⟨ho, rfl, rfl, by simp, .nil⟩

theorem trans (h : Passes c ts ps c₁) (h' : Passes c₁ us qs c') :
    Passes c (ts ++ us) (ps ++ qs) c' where
  order := h.order
  rest := by rw [h.rest, h'.rest, List.map_append, List.append_assoc]
  last := by
    rw [h'.last, h.last, List.getLast?_append]
    cases us.getLast? <;> rfl
  inner t ht := (List.mem_append.mp ht).elim (h.inner t) (h'.inner t)
  covers := h.covers.append h'.covers

/-- Entering and leaving constructs passes nothing. -/
theorem of_constructs {ks : List Construct} (h : Passes { c with constructs := ks } ts ps c') :
    Passes c ts ps { c' with constructs := c'.constructs.tail } :=
  ⟨h.order, h.rest, h.last, h.inner, h.covers⟩

/-- Making a mark passes nothing. -/
theorem mint {m : Mark} (h : Passes c ts ps c₁) (hm : Parser.mint s c₁ = .ok m c') :
    m.span = s ∧ Passes c ts ps c' := by
  simp only [Parser.mint, Reply.ok.injEq] at hm
  obtain ⟨rfl, rfl⟩ := hm
  exact ⟨rfl, h.order, h.rest, h.last, h.inner, h.covers⟩

/-- A node of which all pieces have been passed, if its span goes from the first to the last. -/
theorem node (h : Passes c ts ps c') (hw : Extent.Written n ps) (hb : Bounds n.span ts) :
    Passes c ts [.child n] c' where
  order := h.order
  rest := h.rest
  last := h.last
  inner := h.inner
  covers := .singleton (.node hw h.covers hb (h.covers.nested h.inLine hb))

theorem expr {e : Expr} (h : Passes c ts (exprParts e) c') (hb : Bounds e.span ts) :
    Passes c ts [.expr e] c' := h.node (.expr e) hb

theorem stmt {s : Stmt} (h : Passes c ts (stmtParts s) c') (hb : Bounds s.span ts) :
    Passes c ts [.stmt s] c' := h.node (.stmt s) hb

theorem bounds (h : Passes c ts [.child n] c') : Bounds n.span ts := h.covers.spans.bounds

theorem of_eq (h : Passes c ts ps c') (hps : ps = qs) : Passes c ts qs c' := hps ▸ h

/-- The pieces of an expression that has been passed. -/
theorem parts {e : Expr} (h : Passes c ts [.expr e] c') : Passes c ts (exprParts e) c' := by
  refine ⟨h.order, h.rest, h.last, h.inner, ?_⟩
  cases h.covers.spans with
  | node hw hc =>
    cases hw
    exact hc

/-- The join of what stands first and what stands last. -/
theorem join (h : Passes c (us ++ vs) ps c') (hs : Bounds s ws) (hws : ws <+: us ++ vs)
    (ht : Bounds span vs) : Bounds (s.join span) (us ++ vs) :=
  .join h.inLine hs hws ht (List.suffix_append ..)

/-- The join of what stands first and the last token read. -/
theorem join_last (h : Passes c ts ps c') (hs : Bounds s ws) (hws : ws <+: ts) :
    Bounds (s.join c'.last) ts := by
  have hne : ts ≠ [] := by
    rintro rfl
    rw [List.prefix_nil.mp hws] at hs
    obtain ⟨first, -, hfirst, -⟩ := hs
    cases hfirst
  have hlast := h.last
  rw [List.getLast?_eq_some_getLast hne, Option.map_some, Option.getD_some] at hlast
  rw [hlast]
  exact .join h.inLine hs hws (.singleton _) ⟨_, List.dropLast_append_getLast hne⟩

end Passes

/-! ### Reading one token -/

theorem next_passes (ho : c.Ordered) (hf : Front c t) (ht : t.token ≠ .endOfInput)
    {t' : PlacedToken} (h : next c = .ok t' c') :
    t' = t ∧ Passes c [t] [.placed t.token t.span] c' := by
  obtain ⟨rest, hr⟩ := hf.rest ht
  simp only [next, hr, Reply.ok.injEq] at h
  obtain ⟨rfl, rfl⟩ := h
  exact ⟨rfl, ho, hr, rfl, by simpa using ht, .placed .nil⟩

/-- Whether the tree keeps the place of a token makes no difference to what has been passed. -/
theorem Passes.token {x : Token} (h : Passes c ts [.placed x s] c') :
    Passes c ts [.token x] c' := by
  refine ⟨h.order, h.rest, h.last, h.inner, ?_⟩
  cases h.covers with
  | placed hc => exact .token hc

theorem expect_passes {x : Symbol} (ho : c.Ordered) (h : expect x c = .ok span c') :
    ∃ t, span = t.span ∧ Passes c [t] [.placed (.symbol x) t.span] c' := by
  simp only [expect, bind_eq_ok, ite_eq_ok, refuse_eq_ok, and_false, or_false, pure_eq_ok] at h
  obtain ⟨t, c₁, hp, hs, t', c₂, hn, rfl, rfl⟩ := h
  obtain ⟨rfl, hf⟩ := peek_eq_ok hp
  rw [isSymbol_iff] at hs
  exact ⟨t, rfl, hs ▸ (next_passes ho hf (by simp [hs]) hn).2⟩

theorem takeIf_passes {x : Symbol} (ho : c.Ordered) (h : takeIf x c = .ok (some span) c') :
    ∃ t, Passes c [t] [.symbol x] c' := by
  simp only [takeIf, bind_eq_ok, ite_eq_ok, pure_eq_ok, reduceCtorEq, false_and, and_false,
    or_false] at h
  obtain ⟨t, c₁, hp, hs, t', c₂, hn, -, rfl⟩ := h
  obtain ⟨rfl, hf⟩ := peek_eq_ok hp
  rw [isSymbol_iff] at hs
  exact ⟨t, (hs ▸ (next_passes ho hf (by simp [hs]) hn).2).token⟩

theorem expectName_passes {d : Declared} (ho : c.Ordered) (h : expectName c = .ok d c') :
    ∃ t, d.span = t.span ∧ Passes c [t] [.declared d] c' := by
  simp only [expectName, bind_eq_ok] at h
  obtain ⟨t, c₁, hp, h⟩ := h
  obtain ⟨rfl, hf⟩ := peek_eq_ok hp
  cases hx : t.token with
  | name x =>
    simp only [hx, bind_eq_ok, pure_eq_ok] at h
    obtain ⟨t', c₂, hn, rfl, rfl⟩ := h
    have hname := (next_passes ho hf (by simp [hx]) hn).2
    rw [hx] at hname
    exact ⟨t, rfl, hname⟩
  | symbol | text | number | endOfInput => simp [hx, refuse_eq_ok] at h

/-! ### Lists of items -/

/-- Whenever `p` succeeds, it has passed the pieces of its value. -/
def Lays (p : Parser α) (pieces : α → List Part) : Prop :=
  ∀ ⦃c a c'⦄, c.Ordered → p c = .ok a c' → ∃ ts, Passes c ts (pieces a) c'

theorem Lays.within {pieces : α → List Part} {k : Construct} {p : Parser α} (h : Lays p pieces) :
    Lays (within k p) pieces := by
  intro c a c' ho hw
  obtain ⟨c₁, hp, rfl⟩ := within_eq_ok.mp hw
  obtain ⟨ts, hts⟩ := h (c := { c with constructs := k :: c.constructs }) ho hp
  exact ⟨ts, hts.of_constructs⟩

theorem commaList_lays {item : Parser α} {piece : α → Part} {place : α → Span}
    {tooMany : SyntaxProblem} (hi : Lays item fun a => [piece a]) :
    ∀ (f : Nat) {found as : List α} {c c' : Cursor}, c.Ordered →
      commaList item place tooMany f found c = .ok as c' →
      ∃ xs ts, as = found.reverse ++ xs ∧ xs ≠ [] ∧ Passes c ts (Part.commas (xs.map piece)) c'
  | 0, _, _, _, _, _, h => by simp [commaList, exhausted_eq_ok] at h
  | f + 1, found, as, c, c', ho, h => by
    simp only [commaList, bind_eq_ok, ite_eq_ok, refuse_eq_ok, and_false, false_or] at h
    obtain ⟨a, c₁, ha, -, o, c₂, hcomma, h⟩ := h
    obtain ⟨us, hus⟩ := hi ho ha
    cases o with
    | none =>
      obtain ⟨rfl, rfl⟩ := pure_eq_ok.mp h
      obtain ⟨rfl, -⟩ := takeIf_none hcomma
      exact ⟨[a], us, by simp, by simp, hus⟩
    | some sign =>
      obtain ⟨t, ht⟩ := takeIf_passes hus.after hcomma
      obtain ⟨xs, vs, rfl, hne, hvs⟩ := commaList_lays hi f ht.after h
      obtain ⟨x, xs, rfl⟩ := List.exists_cons_of_ne_nil hne
      exact ⟨a :: x :: xs, _, by simp, by simp, (hus.trans ht).trans hvs⟩

theorem commaListBefore_lays {x : Symbol} {item : Parser α} {piece : α → Part} {place : α → Span}
    {tooMany : SyntaxProblem} {f : Nat} {p : List α × Span} (hi : Lays item fun a => [piece a])
    (ho : c.Ordered) (h : commaListBefore x item place tooMany f c = .ok p c') :
    ∃ ts t, p.2 = t.span ∧
      Passes c (ts ++ [t]) (Part.commas (p.1.map piece) ++ [.symbol x]) c' := by
  simp only [commaListBefore, bind_eq_ok, pure_eq_ok] at h
  obtain ⟨o, c₁, hitems, stop, c₂, hstop, rfl, rfl⟩ := h
  rcases unlessNext_reads hitems with ⟨rfl, rfl⟩ | ⟨as, rfl, has⟩
  · obtain ⟨t, rfl, ht⟩ := expect_passes ho hstop
    exact ⟨[], t, rfl, ht.token⟩
  · obtain ⟨xs, ts, rfl, -, hts⟩ := commaList_lays hi f ho has
    obtain ⟨t, rfl, ht⟩ := expect_passes hts.after hstop
    exact ⟨ts, t, rfl, hts.trans ht.token⟩

theorem upToBrace_lays {pieces : α → List Part} {item : Parser α} (hi : Lays item pieces) :
    ∀ (f : Nat) {found as : List α} {c c' : Cursor}, c.Ordered →
      upToBrace item f found c = .ok as c' →
      ∃ xs ts, as = found.reverse ++ xs ∧ Passes c ts (xs.flatMap pieces) c'
  | 0, _, _, _, _, _, h => by simp [upToBrace, exhausted_eq_ok] at h
  | f + 1, found, as, c, c', ho, h => by
    simp only [upToBrace, bind_eq_ok, ite_eq_ok, pure_eq_ok] at h
    obtain ⟨t, c₁, hp, h⟩ := h
    obtain ⟨rfl, -⟩ := peek_eq_ok hp
    rcases h with ⟨-, rfl, rfl⟩ | ⟨-, a, c₂, ha, h⟩
    · exact ⟨[], [], by simp, .refl ho⟩
    · obtain ⟨us, hus⟩ := hi ho ha
      obtain ⟨xs, vs, rfl, hvs⟩ := upToBrace_lays hi f hus.after h
      exact ⟨a :: xs, _, by simp, hus.trans hvs⟩

/-! ### Expressions -/

/-- Operands with operators between them, behind a first one that has been passed. -/
theorem chain_lays {Op : Type} {operand : Parser Expr} {find : Token → Option Op}
    {build : Mark → Op → Expr → Expr → Expr} (ho : Lays operand fun e => [.expr e])
    (hend : find .endOfInput = none)
    (hparts : ∀ {t op} (m l r), find t = some op →
      exprParts (build m op l r) = [.expr l, .token t, .expr r])
    (hmark : ∀ m op l r, (build m op l r).mark = m) :
    ∀ (f : Nat) {left e : Expr} {us : List PlacedToken} {c c₁ c' : Cursor},
      Passes c us [.expr left] c₁ → chain operand find build f left c₁ = .ok e c' →
      ∃ ts, Passes c ts [.expr e] c'
  | 0, _, _, _, _, _, _, _, h => by simp [chain, exhausted_eq_ok] at h
  | f + 1, left, e, us, c, c₁, c', hleft, h => by
    simp only [chain, bind_eq_ok] at h
    obtain ⟨t, c₂, hp, h⟩ := h
    obtain ⟨rfl, hf⟩ := peek_eq_ok hp
    cases hop : find t.token with
    | none =>
      simp only [hop, pure_eq_ok] at h
      obtain ⟨rfl, rfl⟩ := h
      exact ⟨us, hleft⟩
    | some op =>
      simp only [hop, bind_eq_ok] at h
      obtain ⟨t', c₂, hn, right, c₃, hr, m, c₄, hm, h⟩ := h
      have ht : t.token ≠ .endOfInput := fun ht => by rw [ht, hend] at hop; cases hop
      have hsign := (next_passes hleft.after hf ht hn).2.token
      obtain ⟨vs, hright⟩ := ho hsign.after hr
      obtain ⟨hspan, hall⟩ := ((hleft.trans hsign).trans hright).mint hm
      have hmade : Passes c (us ++ [t] ++ vs) [.expr (build m op left right)] c₄ := by
        refine .expr ?_ ?_
        · rw [hparts m left right hop]
          exact hall
        · rw [Expr.span, hmark, hspan]
          exact hall.join hleft.bounds (by simp) hright.bounds
      exact chain_lays ho hend hparts hmark f hmade h

theorem operand_lays {unary : Parser Expr} (h : Lays unary fun e => [.expr e]) (f level : Nat) :
    Lays (operand unary f level) fun e => [.expr e] := by
  induction level with
  | zero => exact h
  | succ level ih =>
    intro c e c' ho he
    simp only [operand, bind_eq_ok] at he
    obtain ⟨left, c₁, hl, he⟩ := he
    obtain ⟨us, hleft⟩ := ih ho hl
    refine chain_lays ih rfl (fun m l r hop => ?_) (fun _ _ _ _ => rfl) f hleft he
    rw [(operator_of_atLevel hop).1]
    rfl

/-- Operands with a logical operator between them. -/
theorem logical_lays {operand : Parser Expr} {op : LogicalOp} {f : Nat} {left e : Expr}
    (h : Lays operand fun e => [.expr e]) (hleft : Passes c us [.expr left] c₁)
    (he : chain operand (logicalOp? op) Expr.logical f left c₁ = .ok e c') :
    ∃ ts, Passes c ts [.expr e] c' := by
  refine chain_lays h rfl (fun m l r hop => ?_) (fun _ _ _ _ => rfl) f hleft he
  obtain ⟨rfl, rfl⟩ := logicalOp_eq hop
  rfl

theorem logicalAnd_lays {unary : Parser Expr} (h : Lays unary fun e => [.expr e]) (f : Nat) :
    Lays (logicalAnd unary f) fun e => [.expr e] := by
  intro c e c' ho he
  simp only [logicalAnd, bind_eq_ok] at he
  obtain ⟨left, c₁, hl, he⟩ := he
  obtain ⟨us, hleft⟩ := operand_lays h f _ ho hl
  exact logical_lays (operand_lays h f _) hleft he

theorem logicalOr_lays {unary : Parser Expr} (h : Lays unary fun e => [.expr e]) (f : Nat) :
    Lays (logicalOr unary f) fun e => [.expr e] := by
  intro c e c' ho he
  simp only [logicalOr, bind_eq_ok] at he
  obtain ⟨left, c₁, hl, he⟩ := he
  obtain ⟨us, hleft⟩ := logicalAnd_lays h f ho hl
  exact logical_lays (logicalAnd_lays h f) hleft he

theorem leaf_lays {build : Mark → Expr} {e : Expr} (ho : c.Ordered) (hf : Front c t)
    (ht : t.token ≠ .endOfInput) (hparts : ∀ m, exprParts (build m) = [.token t.token])
    (hmark : ∀ m, (build m).mark = m) (h : leaf t.span build c = .ok e c') :
    ∃ ts, Passes c ts [.expr e] c' := by
  simp only [leaf, bind_eq_ok, pure_eq_ok] at h
  obtain ⟨t', c₁, hn, m, c₂, hm, rfl, rfl⟩ := h
  obtain ⟨hspan, hall⟩ := (next_passes ho hf ht hn).2.token.mint hm
  refine ⟨[t], .expr (by rw [hparts]; exact hall) ?_⟩
  rw [Expr.span, hmark, hspan]
  exact .singleton t

theorem primary_lays {expression : Parser Expr} (h : Lays expression fun e => [.expr e]) :
    Lays (primary expression) fun e => [.expr e] := by
  intro c e c' ho he
  simp only [primary, bind_eq_ok] at he
  obtain ⟨t, c₁, hp, he⟩ := he
  obtain ⟨rfl, hf⟩ := peek_eq_ok hp
  change answer _ c₁ = _ at he
  split at he
  all_goals try rename_i hx
  iterate 7
    · exact leaf_lays ho hf (by simp [hx]) (fun _ => by rw [hx]; rfl) (fun _ => rfl) he
  · simp only [answer, bind_eq_ok, within_eq_ok, pure_eq_ok] at he
    obtain ⟨x, c₂, ⟨c₃, ⟨t', c₄, hn, sp, c₅, hdot, hname⟩, rfl⟩, m, c₆, hm, rfl, rfl⟩ := he
    have h₁ := (next_passes (by exact ho) (hf.in_construct _) (by simp [hx]) hn).2.token
    obtain ⟨d, -, h₂⟩ := expect_passes h₁.after hdot
    obtain ⟨u, hu, h₃⟩ := expectName_passes h₂.after hname
    obtain ⟨hspan, hall⟩ := ((h₁.trans h₂.token).trans h₃.token).of_constructs.mint hm
    rw [hx] at hall
    refine ⟨_, hall.expr (e := .super m x.name) ?_⟩
    rw [Expr.span, Expr.mark, hspan, hu]
    exact hall.join (.singleton t) (by simp) (.singleton u)
  · simp only [answer, bind_eq_ok, within_eq_ok, pure_eq_ok] at he
    obtain ⟨p, c₂, ⟨c₃, ⟨t', c₄, hn, inner, c₅, hi, stop, c₆, hstop, rfl, rfl⟩, rfl⟩, m, c₇, hm,
      rfl, rfl⟩ := he
    have h₁ := (next_passes (by exact ho) (hf.in_construct _) (by simp [hx]) hn).2.token
    obtain ⟨us, h₂⟩ := h h₁.after hi
    obtain ⟨u, rfl, h₃⟩ := expect_passes h₂.after hstop
    obtain ⟨hspan, hall⟩ := ((h₁.trans h₂).trans h₃.token).of_constructs.mint hm
    rw [hx] at hall
    refine ⟨_, hall.expr (e := .group m inner) ?_⟩
    rw [Expr.span, Expr.mark, hspan]
    exact hall.join (.singleton t) (by simp) (.singleton u)
  · simp [answer, refuse_eq_ok] at he

/-- Calls and property accesses behind an expression that has been passed. -/
theorem suffixes_lays {expression : Parser Expr} (h : Lays expression fun e => [.expr e]) :
    ∀ (f : Nat) {e e' : Expr} {us : List PlacedToken} {c c₁ c' : Cursor},
      Passes c us [.expr e] c₁ → suffixes expression f e c₁ = .ok e' c' →
      ∃ ts, Passes c ts [.expr e'] c'
  | 0, _, _, _, _, _, _, _, he => by simp [suffixes, exhausted_eq_ok] at he
  | f + 1, e, e', us, c, c₁, c', hfront, he => by
    simp only [suffixes, bind_eq_ok] at he
    obtain ⟨t, c₂, hp, he⟩ := he
    obtain ⟨rfl, hf⟩ := peek_eq_ok hp
    change answer _ c₂ = _ at he
    split at he
    next ht =>
      simp only [answer, bind_eq_ok, within_eq_ok] at he
      obtain ⟨p, c₂, ⟨c₃, ⟨t', c₄, hn, ha⟩, rfl⟩, m, c₅, hm, he⟩ := he
      have h₁ := (next_passes (by exact hfront.after) (hf.in_construct _) (by simp [ht]) hn).2.token
      obtain ⟨vs, u, hu, h₂⟩ := commaListBefore_lays h h₁.after ha
      obtain ⟨hspan, hall⟩ := (hfront.trans (h₁.trans h₂).of_constructs).mint hm
      rw [ht, ← List.append_assoc [t], ← List.append_assoc us] at hall
      refine suffixes_lays h f (e := .call m e p.1) (hall.expr ?_) he
      rw [Expr.span, Expr.mark, hspan, hu]
      exact hall.join hfront.bounds (by simp) (.singleton u)
    next ht =>
      simp only [answer, bind_eq_ok, within_eq_ok] at he
      obtain ⟨x, c₂, ⟨c₃, ⟨t', c₄, hn, hx⟩, rfl⟩, m, c₅, hm, he⟩ := he
      have h₁ := (next_passes (by exact hfront.after) (hf.in_construct _) (by simp [ht]) hn).2.token
      obtain ⟨u, hu, h₂⟩ := expectName_passes h₁.after hx
      obtain ⟨hspan, hall⟩ := (hfront.trans (h₁.trans h₂.token).of_constructs).mint hm
      rw [ht, ← List.append_assoc us] at hall
      refine suffixes_lays h f (e := .get m e x.name) (hall.expr ?_) he
      rw [Expr.span, Expr.mark, hspan, hu]
      exact hall.join hfront.bounds (by simp) (.singleton u)
    next =>
      obtain ⟨rfl, rfl⟩ := pure_eq_ok.mp he
      exact ⟨us, hfront⟩

theorem call_lays {expression : Parser Expr} (h : Lays expression fun e => [.expr e]) (f : Nat) :
    Lays (call expression f) fun e => [.expr e] := by
  intro c e c' ho he
  simp only [call, bind_eq_ok] at he
  obtain ⟨e₁, c₁, hp, he⟩ := he
  obtain ⟨us, hfront⟩ := primary_lays h ho hp
  exact suffixes_lays h f hfront he

/-- An assignment is written with the pieces of its target, the equals sign and the value. -/
theorem assignTo_parts {target value : Expr} {sign : Span} {build : Mark → Expr}
    (h : assignTo target sign value c = .ok build c') (m : Mark) :
    c' = c ∧ (build m).mark = m ∧
      exprParts (build m) = exprParts target ++ [.symbol .equal] ++ [.expr value] := by
  unfold assignTo at h
  change answer _ c = _ at h
  split at h
  iterate 2
    · obtain ⟨rfl, rfl⟩ := pure_eq_ok.mp h
      exact ⟨rfl, rfl, rfl⟩
  · simp [answer, refuse_eq_ok] at h

mutual

/-- **An expression that is read spans its text, with all its parts.** -/
theorem expression_lays : ∀ f, Lays (expression f) fun e => [.expr e]
  | 0 => fun c e c' _ h => by simp [expression, exhausted_eq_ok] at h
  | f + 1 => by
    have h := (assignment_lays f).within (k := .expr)
    intro c e c' ho he
    simp only [expression, staged_eq] at he
    exact h ho he

theorem assignment_lays : ∀ f, Lays (assignment f) fun e => [.expr e]
  | 0 => fun c e c' _ h => by simp [assignment, exhausted_eq_ok] at h
  | f + 1 => by
    intro c e c' ho he
    simp only [assignment, staged_eq, bind_eq_ok] at he
    obtain ⟨target, c₁, ht, o, c₂, hsign, he⟩ := he
    obtain ⟨us, htarget⟩ := logicalOr_lays (unary_lays f) f ho ht
    cases o with
    | none =>
      obtain ⟨rfl, -⟩ := takeIf_none hsign
      obtain ⟨rfl, rfl⟩ := pure_eq_ok.mp he
      exact ⟨us, htarget⟩
    | some sign =>
      simp only [bind_eq_ok, within_eq_ok, pure_eq_ok] at he
      obtain ⟨p, c₃, ⟨c₄, ⟨value, c₅, hv, build, c₆, hb, rfl, rfl⟩, rfl⟩, m, c₇, hm, rfl, rfl⟩ := he
      obtain ⟨u, hequal⟩ := takeIf_passes htarget.after hsign
      obtain ⟨vs, hvalue⟩ := assignment_lays f (by exact hequal.after) hv
      obtain ⟨rfl, hmark, hparts⟩ := assignTo_parts hb m
      obtain ⟨hspan, hall⟩ := ((htarget.parts.trans hequal).trans hvalue.of_constructs).mint hm
      rw [← hparts] at hall
      refine ⟨_, hall.expr ?_⟩
      rw [Expr.span, hmark, hspan]
      exact hall.join htarget.bounds (by simp) hvalue.bounds

theorem unary_lays : ∀ f, Lays (unary f) fun e => [.expr e]
  | 0 => fun c e c' _ h => by simp [unary, exhausted_eq_ok] at h
  | f + 1 => by
    intro c e c' ho he
    simp only [unary, staged_eq, bind_eq_ok] at he
    obtain ⟨t, c₁, hp, he⟩ := he
    obtain ⟨rfl, hf⟩ := peek_eq_ok hp
    cases hop : UnaryOp.ofToken? t.token with
    | none =>
      simp only [hop] at he
      exact call_lays (expression_lays f) f ho he
    | some op =>
      simp only [hop, bind_eq_ok, pure_eq_ok] at he
      obtain ⟨t', c₂, hn, e₁, c₃, he₁, m, c₄, hm, rfl, rfl⟩ := he
      have ht : t.token = .symbol op.symbol := unaryOp_eq hop
      have h₁ := (next_passes ho hf (by simp [ht]) hn).2.token
      obtain ⟨us, h₂⟩ := unary_lays f h₁.after he₁
      obtain ⟨hspan, hall⟩ := (h₁.trans h₂).mint hm
      rw [ht] at hall
      refine ⟨_, hall.expr (e := .unary m op e₁) ?_⟩
      rw [Expr.span, Expr.mark, hspan]
      exact hall.join (.singleton t) (by simp) h₂.bounds

end

/-! ### Statements -/

section Parts

variable {expression : Parser Expr} {declaration statement : Parser Stmt}

theorem behind_lays {x : Symbol} {p : Parser α} {piece : α → Part} {o : Option α}
    (hp : Lays p fun a => [piece a]) (ho : c.Ordered) (h : behind x p c = .ok o c') :
    ∃ ts, Passes c ts (Part.behind x (o.map piece)) c' := by
  simp only [behind, bind_eq_ok] at h
  obtain ⟨sign, c₁, hsign, h⟩ := h
  cases sign with
  | none =>
    obtain ⟨rfl, rfl⟩ := pure_eq_ok.mp h
    obtain ⟨rfl, -⟩ := takeIf_none hsign
    exact ⟨[], .refl ho⟩
  | some span =>
    simp only [bind_eq_ok, pure_eq_ok] at h
    obtain ⟨a, c₂, ha, rfl, rfl⟩ := h
    obtain ⟨t, ht⟩ := takeIf_passes ho hsign
    obtain ⟨us, hus⟩ := hp ht.after ha
    exact ⟨_, ht.trans hus⟩

theorem unlessNext_lays {x : Symbol} {p : Parser α} {piece : α → Part} {o : Option α}
    (hp : Lays p fun a => [piece a]) (ho : c.Ordered) (h : unlessNext x p c = .ok o c') :
    ∃ ts, Passes c ts (o.map piece).toList c' := by
  rcases unlessNext_reads h with ⟨rfl, rfl⟩ | ⟨a, rfl, ha⟩
  · exact ⟨[], .refl ho⟩
  · exact hp ho ha

theorem block_lays (h : Lays declaration fun s => [.stmt s]) (f : Nat) :
    Lays (block declaration f) blockParts := by
  refine Lays.within fun c body c' ho hb => ?_
  simp only [bind_eq_ok, pure_eq_ok] at hb
  obtain ⟨sp, c₁, hopen, ss, c₂, hu, sp', c₃, hclose, rfl, rfl⟩ := hb
  obtain ⟨t, -, h₁⟩ := expect_passes ho hopen
  obtain ⟨xs, ts, rfl, h₂⟩ := upToBrace_lays h f h₁.after hu
  obtain ⟨u, -, h₃⟩ := expect_passes h₂.after hclose
  refine ⟨_, ((h₁.token.trans h₂).trans h₃.token).of_eq ?_⟩
  simp [blockParts, Part.symbol, List.map_eq_flatMap]

theorem function_lays (h : Lays declaration fun s => [.stmt s]) (f : Nat) :
    Lays (function declaration f) functionParts := by
  have hname : Lays expectName fun d => [.declared d] := fun c d c' ho hd => by
    obtain ⟨t, -, ht⟩ := expectName_passes ho hd
    exact ⟨[t], ht⟩
  refine Lays.within fun c d c' ho hf => ?_
  simp only [bind_eq_ok, pure_eq_ok] at hf
  obtain ⟨x, c₁, hx, sp, c₂, hopen, p, c₃, hp, body, c₄, hb, rfl, rfl⟩ := hf
  obtain ⟨t, -, h₁⟩ := expectName_passes ho hx
  obtain ⟨u, -, h₂⟩ := expect_passes h₁.after hopen
  obtain ⟨ts, u', -, h₃⟩ := commaListBefore_lays hname h₂.after hp
  obtain ⟨vs, h₄⟩ := block_lays h f h₃.after hb
  refine ⟨_, (((h₁.trans h₂.token).trans h₃).trans h₄).of_eq ?_⟩
  simp [functionParts, Part.symbol]

theorem superclass_lays : Lays superclass fun u => [.expr u.expr] := by
  intro c u c' ho h
  simp only [superclass, bind_eq_ok, pure_eq_ok] at h
  obtain ⟨d, c₁, hd, m, c₂, hm, rfl, rfl⟩ := h
  obtain ⟨t, ht, h₁⟩ := expectName_passes ho hd
  obtain ⟨hspan, hall⟩ := h₁.token.mint hm
  refine ⟨[t], hall.expr (e := .variable m d.name) ?_⟩
  rw [Expr.span, Expr.mark, hspan, ht]
  exact .singleton t

theorem classDecl_lays (h : Lays declaration fun s => [.stmt s]) (f : Nat) :
    Lays (classDecl declaration f) fun s => [.stmt s] := by
  refine Lays.within fun c s c' ho hs => ?_
  simp only [bind_eq_ok, pure_eq_ok] at hs
  obtain ⟨start, c₁, hc, x, c₂, hx, parent, c₃, hp, sp, c₄, hopen, ms, c₅, hm, stop, c₆, hstop,
    rfl, rfl⟩ := hs
  obtain ⟨t, rfl, h₁⟩ := expect_passes ho hc
  obtain ⟨u, -, h₂⟩ := expectName_passes h₁.after hx
  obtain ⟨ts, h₃⟩ := behind_lays superclass_lays h₂.after hp
  obtain ⟨v, -, h₄⟩ := expect_passes h₃.after hopen
  obtain ⟨xs, us, rfl, h₅⟩ := upToBrace_lays (function_lays h f) f h₄.after hm
  obtain ⟨w, rfl, h₆⟩ := expect_passes h₅.after hstop
  have hall := ((((h₁.token.trans h₂).trans h₃).trans h₄.token).trans h₅).trans h₆.token
  exact ⟨_, .stmt hall (hall.join (.singleton t) (by simp) (.singleton w))⟩

theorem funDecl_lays (h : Lays declaration fun s => [.stmt s]) (f : Nat) {s : Stmt}
    (ho : c.Ordered) (hf : Front c t) (ht : t.token = .symbol .funWord)
    (hs : funDecl declaration f c = .ok s c') : ∃ ts, Passes c ts [.stmt s] c' := by
  simp only [funDecl, bind_eq_ok, pure_eq_ok, last_eq_ok] at hs
  obtain ⟨t', c₁, hn, d, c₂, hd, sp, c₃, ⟨rfl, rfl⟩, rfl, rfl⟩ := hs
  obtain ⟨rfl, h₁⟩ := next_passes ho hf (by simp [ht]) hn
  obtain ⟨us, h₂⟩ := function_lays h f h₁.after hd
  rw [ht] at h₁
  have hall := h₁.token.trans h₂
  exact ⟨_, .stmt hall (hall.join_last (.singleton _) (by simp))⟩

theorem varDecl_lays (h : Lays expression fun e => [.expr e]) :
    Lays (varDecl expression) fun s => [.stmt s] := by
  refine Lays.within fun c s c' ho hs => ?_
  simp only [bind_eq_ok, pure_eq_ok] at hs
  obtain ⟨start, c₁, hv, x, c₂, hx, init, c₃, hi, stop, c₄, hstop, rfl, rfl⟩ := hs
  obtain ⟨t, rfl, h₁⟩ := expect_passes ho hv
  obtain ⟨u, -, h₂⟩ := expectName_passes h₁.after hx
  obtain ⟨ts, h₃⟩ := behind_lays h h₂.after hi
  obtain ⟨v, rfl, h₄⟩ := expect_passes h₃.after hstop
  have hall := ((h₁.token.trans h₂.token).trans h₃).trans h₄.token
  exact ⟨_, .stmt hall (hall.join (.singleton t) (by simp) (.singleton v))⟩

theorem exprStmt_lays (h : Lays expression fun e => [.expr e]) :
    Lays (exprStmt expression) fun s => [.stmt s] := by
  refine Lays.within fun c s c' ho hs => ?_
  simp only [bind_eq_ok, pure_eq_ok] at hs
  obtain ⟨e, c₁, he, stop, c₂, hstop, rfl, rfl⟩ := hs
  obtain ⟨ts, h₁⟩ := h ho he
  obtain ⟨t, rfl, h₂⟩ := expect_passes h₁.after hstop
  have hall := h₁.trans h₂.token
  exact ⟨_, .stmt hall (hall.join h₁.bounds (by simp) (.singleton t))⟩

theorem printStmt_lays (h : Lays expression fun e => [.expr e]) :
    Lays (printStmt expression) fun s => [.stmt s] := by
  refine Lays.within fun c s c' ho hs => ?_
  simp only [bind_eq_ok, pure_eq_ok] at hs
  obtain ⟨start, c₁, hp, e, c₂, he, stop, c₃, hstop, rfl, rfl⟩ := hs
  obtain ⟨t, rfl, h₁⟩ := expect_passes ho hp
  obtain ⟨ts, h₂⟩ := h h₁.after he
  obtain ⟨u, rfl, h₃⟩ := expect_passes h₂.after hstop
  have hall := (h₁.token.trans h₂).trans h₃.token
  exact ⟨_, .stmt hall (hall.join (.singleton t) (by simp) (.singleton u))⟩

theorem returnStmt_lays (h : Lays expression fun e => [.expr e]) :
    Lays (returnStmt expression) fun s => [.stmt s] := by
  refine Lays.within fun c s c' ho hs => ?_
  simp only [bind_eq_ok, pure_eq_ok] at hs
  obtain ⟨start, c₁, hr, o, c₂, hvalue, stop, c₃, hstop, rfl, rfl⟩ := hs
  obtain ⟨t, rfl, h₁⟩ := expect_passes ho hr
  obtain ⟨ts, h₂⟩ := unlessNext_lays h h₁.after hvalue
  obtain ⟨u, rfl, h₃⟩ := expect_passes h₂.after hstop
  have hall := (h₁.token.trans h₂).trans h₃.token
  exact ⟨_, .stmt hall (hall.join (.singleton t) (by simp) (.singleton u))⟩

/-- A condition in parentheses behind a keyword. -/
theorem condition_lays (he : Lays expression fun e => [.expr e]) {x : Symbol} {sp₁ sp₂ : Span}
    {e : Expr} {c₂ c₃ : Cursor} (ho : c.Ordered) (hx : expect x c = .ok span c₁)
    (hopen : expect .openParen c₁ = .ok sp₁ c₂) (hc : expression c₂ = .ok e c₃)
    (hclose : expect .closeParen c₃ = .ok sp₂ c') :
    ∃ t us, span = t.span ∧
      Passes c (t :: us) [.symbol x, .symbol .openParen, .expr e, .symbol .closeParen] c' := by
  obtain ⟨t, rfl, h₁⟩ := expect_passes ho hx
  obtain ⟨u, -, h₂⟩ := expect_passes h₁.after hopen
  obtain ⟨ts, h₃⟩ := he h₂.after hc
  obtain ⟨v, -, h₄⟩ := expect_passes h₃.after hclose
  exact ⟨t, _, rfl, ((h₁.token.trans h₂.token).trans h₃).trans h₄.token⟩

theorem ifStmt_lays (he : Lays expression fun e => [.expr e])
    (hs : Lays statement fun s => [.stmt s]) :
    Lays (ifStmt expression statement) fun s => [.stmt s] := by
  refine Lays.within fun c s c' ho h => ?_
  simp only [bind_eq_ok, pure_eq_ok, last_eq_ok] at h
  obtain ⟨start, c₁, hi, sp, c₂, hopen, e, c₃, hc, sp', c₄, hclose, yes, c₅, hy, no, c₆, hn, stop,
    c₇, ⟨rfl, rfl⟩, rfl, rfl⟩ := h
  obtain ⟨t, us, rfl, h₁⟩ := condition_lays he ho hi hopen hc hclose
  obtain ⟨vs, h₂⟩ := hs h₁.after hy
  obtain ⟨ws, h₃⟩ := behind_lays hs h₂.after hn
  have hall := (h₁.trans h₂).trans h₃
  exact ⟨_, .stmt hall (hall.join_last (.singleton t) (by simp))⟩

theorem whileStmt_lays (he : Lays expression fun e => [.expr e])
    (hs : Lays statement fun s => [.stmt s]) :
    Lays (whileStmt expression statement) fun s => [.stmt s] := by
  refine Lays.within fun c s c' ho h => ?_
  simp only [bind_eq_ok, pure_eq_ok, last_eq_ok] at h
  obtain ⟨start, c₁, hw, sp, c₂, hopen, e, c₃, hc, sp', c₄, hclose, body, c₅, hb, stop, c₆,
    ⟨rfl, rfl⟩, rfl, rfl⟩ := h
  obtain ⟨t, us, rfl, h₁⟩ := condition_lays he ho hw hopen hc hclose
  obtain ⟨vs, h₂⟩ := hs h₁.after hb
  have hall := h₁.trans h₂
  exact ⟨_, .stmt hall (hall.join_last (.singleton t) (by simp))⟩

theorem forInit_lays (h : Lays expression fun e => [.expr e]) :
    Lays (forInit expression) openingParts := by
  intro c o c' hc ho
  simp only [forInit, bind_eq_ok] at ho
  obtain ⟨t, c₁, hp, ho⟩ := ho
  obtain ⟨rfl, hf⟩ := peek_eq_ok hp
  change answer _ c₁ = _ at ho
  split at ho
  next ht =>
    simp only [answer, bind_eq_ok, pure_eq_ok] at ho
    obtain ⟨t', c₂, hn, rfl, rfl⟩ := ho
    have h₁ := (next_passes hc hf (by simp [ht]) hn).2.token
    rw [ht] at h₁
    exact ⟨[t], h₁⟩
  next =>
    simp only [answer, bind_eq_ok, pure_eq_ok] at ho
    obtain ⟨s, c₂, hs, rfl, rfl⟩ := ho
    exact varDecl_lays h hc hs
  next =>
    simp only [answer, bind_eq_ok, pure_eq_ok] at ho
    obtain ⟨s, c₂, hs, rfl, rfl⟩ := ho
    exact exprStmt_lays h hc hs

/-- The condition of a `for` statement and the semicolon behind it. The condition is made when the
whole statement has been read, which passes nothing more. -/
theorem forCondition_lays (he : Lays expression fun e => [.expr e]) {o : Option Expr} {e : Expr}
    {c₂ c₃ c₄ : Cursor} (ho : c.Ordered) (ht : unlessNext .semicolon expression c = .ok o c₁)
    (hsign : expect .semicolon c₁ = .ok span c₂) (h : forCondition span o c₃ = .ok e c₄) :
    ∃ ts test, Conditional o e test ∧ Passes c ts test c₂ ∧
      ∀ {us ps c₀}, Passes c₀ us ps c₃ → Passes c₀ us ps c₄ := by
  rcases unlessNext_reads ht with ⟨rfl, rfl⟩ | ⟨e', rfl, he'⟩
  · obtain ⟨t, rfl, h₁⟩ := expect_passes ho hsign
    simp only [forCondition, bind_eq_ok, pure_eq_ok] at h
    obtain ⟨m, c₅, hm, rfl, rfl⟩ := h
    have hspan : m.span = t.span := by
      simp only [mint, Reply.ok.injEq] at hm
      rw [← hm.1]
    exact ⟨[t], _, .always m, hspan ▸ h₁, fun hall => (hall.mint hm).2⟩
  · obtain ⟨ts, h₁⟩ := he ho he'
    obtain ⟨t, -, h₂⟩ := expect_passes h₁.after hsign
    obtain ⟨rfl, rfl⟩ := pure_eq_ok.mp h
    exact ⟨_, _, .given e', h₁.trans h₂.token, fun hall => hall⟩

theorem forStmt_lays (he : Lays expression fun e => [.expr e])
    (hs : Lays statement fun s => [.stmt s]) :
    Lays (forStmt expression statement) fun s => [.stmt s] := by
  refine Lays.within fun c s c' ho h => ?_
  simp only [bind_eq_ok, pure_eq_ok, last_eq_ok] at h
  obtain ⟨start, c₁, hf, sp, c₂, hopen, init, c₃, hi, cond, c₄, hc, sign, c₅, hsign, incr, c₆, hn,
    sp', c₇, hclose, body, c₈, hb, stop, c₉, ⟨rfl, rfl⟩, e, c₁₀, hcond, rfl, rfl⟩ := h
  obtain ⟨t, rfl, h₁⟩ := expect_passes ho hf
  obtain ⟨u, -, h₂⟩ := expect_passes h₁.after hopen
  obtain ⟨ts, h₃⟩ := forInit_lays he h₂.after hi
  obtain ⟨us, test, htest, h₄, hmade⟩ := forCondition_lays he h₃.after hc hsign hcond
  obtain ⟨vs, h₅⟩ := unlessNext_lays he h₄.after hn
  obtain ⟨v, -, h₆⟩ := expect_passes h₅.after hclose
  obtain ⟨ws, h₇⟩ := hs h₆.after hb
  have hall := (((((h₁.token.trans h₂.token).trans h₃).trans h₄).trans h₅).trans h₆.token).trans h₇
  have hbounds := hall.join_last (.singleton t) (by simp)
  refine ⟨_, hmade ((hall.of_eq ?_).node (written_forLoop htest) ?_)⟩
  · simp [Part.symbol]
  · rw [Node.span, span_forLoop]
    exact hbounds

/-- The token in front of a cursor is the first one passed. -/
theorem Passes.front (h : Passes c ts ps c') (hf : Front c t) (hne : ts ≠ []) : [t] <+: ts := by
  obtain ⟨u, us, rfl⟩ := List.exists_cons_of_ne_nil hne
  rcases hf with ⟨hnil, -⟩ | ⟨rest, hcons⟩
  · rw [h.rest] at hnil
    cases hnil
  · rw [h.rest] at hcons
    obtain rfl : u = t := Except.ok.inj (List.cons.inj hcons).1
    simp

theorem blockStmt_lays (h : Lays declaration fun s => [.stmt s]) (f : Nat) :
    Lays (blockStmt declaration f) fun s => [.stmt s] := by
  intro c s c' ho hs
  simp only [blockStmt, bind_eq_ok, pure_eq_ok, last_eq_ok] at hs
  obtain ⟨t, c₁, hp, body, c₂, hb, sp, c₃, ⟨rfl, rfl⟩, rfl, rfl⟩ := hs
  obtain ⟨rfl, hf⟩ := peek_eq_ok hp
  obtain ⟨ts, hall⟩ := block_lays h f ho hb
  exact ⟨ts, .stmt hall (hall.join_last (.singleton t) (hall.front hf (Covers.ne_nil hall.covers)))⟩

end Parts

mutual

/-- **A declaration that is read spans its text, with all its parts.** -/
theorem declaration_lays : ∀ f, Lays (declaration f) fun s => [.stmt s]
  | 0 => fun c s c' _ h => by simp [declaration, exhausted_eq_ok] at h
  | f + 1 => by
    intro c s c' ho h
    simp only [declaration, staged_eq, bind_eq_ok] at h
    obtain ⟨t, c₁, hp, h⟩ := h
    obtain ⟨rfl, hf⟩ := peek_eq_ok hp
    change answer _ c₁ = _ at h
    split at h
    next => exact classDecl_lays (declaration_lays f) f ho h
    next ht => exact funDecl_lays (declaration_lays f) f ho hf ht h
    next => exact varDecl_lays (expression_lays f) ho h
    next => exact statement_lays f ho h

theorem statement_lays : ∀ f, Lays (statement f) fun s => [.stmt s]
  | 0 => fun c s c' _ h => by simp [statement, exhausted_eq_ok] at h
  | f + 1 => by
    intro c s c' ho h
    simp only [statement, staged_eq, bind_eq_ok] at h
    obtain ⟨t, c₁, hp, h⟩ := h
    obtain ⟨rfl, hf⟩ := peek_eq_ok hp
    change answer _ c₁ = _ at h
    split at h
    next => exact forStmt_lays (expression_lays f) (statement_lays f) ho h
    next => exact ifStmt_lays (expression_lays f) (statement_lays f) ho h
    next => exact printStmt_lays (expression_lays f) ho h
    next => exact returnStmt_lays (expression_lays f) ho h
    next => exact whileStmt_lays (expression_lays f) (statement_lays f) ho h
    next => exact blockStmt_lays (declaration_lays f) f ho h
    next => exact exprStmt_lays (expression_lays f) ho h

end

end Parser

/-! ### Whole programs -/

/-- The last of the lexemes is the end of the input, or an error. -/
theorem Lexer.lexemes_end : ∀ (n : Nat) (l : Lexer), l.rest.length < n →
    ∃ front x, lexemes n l = front ++ [x] ∧ ∀ t, x = .ok t → t.token = .endOfInput
  | 0, _, hn => absurd hn (Nat.not_lt_zero _)
  | n + 1, l, hn => by
    obtain ⟨gap, rest, -, hrest, -, -, hscan⟩ := l.step_spec
    have hlen : rest.length ≤ l.rest.length := by
      rw [hrest, List.length_append]
      omega
    have hmore {x : Lexeme} {next : Lexer} (hstep : l.step = .more x next)
        (hless : next.rest.length < rest.length) :
        ∃ front x, lexemes (n + 1) l = front ++ [x] ∧ ∀ t, x = .ok t → t.token = .endOfInput := by
      obtain ⟨front, y, hfront, hy⟩ := lexemes_end n next (by omega)
      exact ⟨x :: front, y, by rw [lexemes, hstep]; exact congrArg (x :: ·) hfront, hy⟩
    have hlast {x : Lexeme} (hstep : l.step = .last x)
        (hx : ∀ t, x = .ok t → t.token = .endOfInput) :
        ∃ front x, lexemes (n + 1) l = front ++ [x] ∧ ∀ t, x = .ok t → t.token = .endOfInput :=
      ⟨[], x, by rw [lexemes, hstep]; rfl, hx⟩
    generalize hstep : l.step = step at hscan
    cases hscan with
    | ended => exact hlast hstep (by rintro t ⟨⟩; rfl)
    | failed => exact hlast hstep (by rintro t ⟨⟩)
    | token hs hspelling =>
      obtain ⟨c, cs, rfl, -⟩ := hspelling.begins
      exact hmore hstep (by simp only [past, hs, List.length_append, List.length_cons,
        CharStream.length_ofList]; omega)
    | unexpected hs => exact hmore hstep (by simp [past, hs])
    | unterminated hs => exact hmore hstep (by simp [past, hs])

namespace Parse

variable {c : Cursor} {results : List (Except SyntaxError Stmt)} {stmts : List Stmt}

/-- Statements that are read one after the other, without an error, up to the end. -/
theorem Iterates.lays (h : Iterates c results) (ho : c.Ordered) (hok : results = stmts.map .ok) :
    ∃ ts ls, c.rest = ts.map .ok ++ ls ∧ endsAt ls 0 = true ∧ (∀ t ∈ ts, t.token ≠ .endOfInput) ∧
      Covers ts (stmts.map .stmt) := by
  induction h generalizing stmts with
  | @ended c hend =>
    obtain rfl := List.map_eq_nil_iff.mp hok.symm
    exact ⟨[], c.rest, rfl, hend, by simp, .nil⟩
  | lexical =>
    obtain ⟨s, stmts, -, hs, -⟩ := List.map_eq_cons_iff.mp hok.symm
    cases hs
  | statement hc ht hgives _ ih =>
    obtain ⟨s, stmts, rfl, hs, hstmts⟩ := List.map_eq_cons_iff.mp hok.symm
    cases hs
    obtain ⟨-, f, hf⟩ := hgives
    obtain ⟨us, hus⟩ := Parser.declaration_lays f (by exact ho) (hf f (Nat.le_refl _))
    obtain ⟨ts, ls, hrest, hend, hinner, hcovers⟩ := ih hus.after hstmts.symm
    refine ⟨us ++ ts, ls, ?_, hend, ?_, hus.covers.append hcovers⟩
    · have hall := hus.rest
      rw [hrest] at hall
      simpa using hall
    · exact fun t ht => (List.mem_append.mp ht).elim (hus.inner t) (hinner t)
  | refused =>
    obtain ⟨s, stmts, -, hs, -⟩ := List.map_eq_cons_iff.mp hok.symm
    cases hs

/-- The results of a parse without errors are its trees. -/
theorem results_of_program {p : Parse} (h : p.program = .ok stmts) :
    p.results = stmts.map .ok := by
  unfold program at h
  split at h
  next he =>
    cases h
    replace he := List.isEmpty_iff.mp he
    unfold errors at he
    unfold trees
    generalize p.results = results at he
    induction results with
    | nil => rfl
    | cons r results ih =>
      cases r with
      | ok s => simpa using ih (by simpa using he)
      | error e => simp at he
  next => cases h

end Parse

/-- **Every node spans its text.** Where a stream is parsed without an error, its lexemes are tokens
and the end of the input, and the tokens are those of the statements, one statement after the other.
Each statement and each expression in them spans the tokens that it is written with, from the start
of the first to the end of the last, and what is written below a node lies inside it, one node
behind the other. -/
theorem spans_are_texts (firstId : Nat) (s : CharStream) (stmts : List Stmt)
    (h : (s.parse firstId).program = .ok stmts) :
    ∃ (ts : List PlacedToken) (stop : PlacedToken),
      s.lexemes = ts.map .ok ++ [.ok stop] ∧ stop.token = .endOfInput ∧
      Covers ts (stmts.map .stmt) ∧ (stmts.map Stmt.span).Pairwise (·.stop ≤ ·.start) := by
  have horder : InOrder 0 s.lexemes := Lexer.lexemes_inOrder (s.length + 1) ⟨s, 0, 1⟩
  obtain ⟨ts, ls, hrest, hends, hinner, hcovers⟩ :=
    (parseLexemes_iterates firstId s.lexemes).lays ⟨0, horder⟩ (Parse.results_of_program h)
  obtain ⟨front, x, hfront, hx⟩ := Lexer.lexemes_end (s.length + 1) ⟨s, 0, 1⟩ (Nat.lt_succ_self _)
  change s.lexemes = ts.map .ok ++ ls at hrest
  change s.lexemes = front ++ [x] at hfront
  have hline : InLine ts := (hrest ▸ horder).inLine
  have hspans : (stmts.map Part.stmt).filterMap Part.childSpan = stmts.map Stmt.span := by
    rw [List.filterMap_map]
    exact congrFun List.filterMap_eq_map stmts
  have hapart := hspans ▸ hcovers.apart hline
  cases ls with
  | nil =>
    -- the last lexeme would be a token that belongs to a statement
    rw [hfront, List.append_nil] at hrest
    have hmem : x ∈ ts.map .ok := hrest ▸ List.mem_append_right _ (List.mem_singleton_self x)
    obtain ⟨t, ht, rfl⟩ := List.mem_map.mp hmem
    exact absurd (hx t rfl) (hinner t ht)
  | cons l ls =>
    cases l with
    | error e => cases hends
    | ok stop =>
      have hstop : stop.token = .endOfInput := Parser.isEnd_iff.mp hends
      obtain ⟨lo, hlast⟩ : Cursor.Ordered { rest := .ok stop :: ls } := ⟨0, (hrest ▸ horder).suffix⟩
      cases hlast with
      | cons _ _ hnil =>
        obtain rfl := hnil stop rfl hstop
        exact ⟨ts, stop, hrest, hstop, hcovers, hapart⟩

theorem spans_are_texts_var_and_loop :
    let text := CharStream.ofString "var i; for (;; i = 1) print i;"
    ∃ (stmts : List Stmt) (ts : List PlacedToken) (stop : PlacedToken),
      (text.parse 0).program = .ok stmts ∧ stmts.map Stmt.span = [⟨0, 6⟩, ⟨7, 30⟩] ∧
      text.lexemes = ts.map .ok ++ [.ok stop] ∧ stop.token = .endOfInput ∧
      Covers ts (stmts.map .stmt) ∧ (stmts.map Stmt.span).Pairwise (·.stop ≤ ·.start) := by
  intro text
  have hspans : (text.parse 0).program.toOption.any (fun stmts =>
      stmts.map Stmt.span == [⟨0, 6⟩, ⟨7, 30⟩]) = true := by
    decide +kernel
  cases h : (text.parse 0).program with
  | error es =>
    rw [h] at hspans
    cases hspans
  | ok stmts =>
    rw [h] at hspans
    obtain ⟨ts, stop, hall⟩ := spans_are_texts 0 text stmts h
    exact ⟨stmts, ts, stop, rfl, eq_of_beq hspans, hall⟩

end ClassScript
