/-
# What the parser reads is in the grammar

Whenever a parser of the grammar succeeds, the tokens it has read are derived by its
nonterminal, and its tree is the tree of that derivation. The identities it has given
out are those of its tree.

Key theorems: `expression_reads`, `declaration_reads`, both by induction on the fuel
with one lemma for each nonterminal.
-/
import ClassScript.Proofs.Syntax.Forward

namespace ClassScript
namespace Grammar

variable {r : Rank} {u w : List Token} {e : Expr}

/-- The expressions that a call may begin with and an assignment may go to. -/
def Suffixed : Expr → Prop
  | .variable _ _ | .get _ _ _ => True
  | _ => False

/-- Below an assignment a variable or a property is derived as a call. -/
theorem Expression.call_of_suffixed (h : Expression r w e) :
    r ≠ .assignment → r ≠ .primary → Suffixed e → Expression .call w e := by
  induction h with
  | assign | set | ofOr => exact fun hr => absurd rfl hr
  | or | and | binary | unary => exact fun _ _ hs => hs.elim
  | ofAnd _ ih | ofOperand _ ih | lift _ ih | ofUnary _ ih =>
    exact fun _ _ hs => ih (by simp) (by simp) hs
  | ofCall h | ofPrimary h => intro _ _ _; first | exact h | exact .ofPrimary h
  | call | get x h => intro _ _ hs; first | exact hs.elim | exact .get x h
  | constant | name | this | super | group => exact fun _ hr => absurd rfl hr

theorem Expression.eq_of_variable {m : Mark} {x : String} (h : Expression .or w (.variable m x)) :
    w = [.name x] := by
  cases h.call_of_suffixed (by simp) (by simp) trivial with
  | ofPrimary h => cases h; rfl

theorem Expression.eq_of_get {m : Mark} {o : Expr} {x : String}
    (h : Expression .or w (.get m o x)) :
    ∃ u, w = u ++ [.symbol .dot, .name x] ∧ Expression .call u o := by
  cases h.call_of_suffixed (by simp) (by simp) trivial with
  | ofPrimary h => cases h
  | get x ho => exact ⟨_, rfl, ho⟩

end Grammar

namespace Parser

open Grammar

/-! ### Expressions -/

/-- The tokens are derived by the nonterminal `r`, and the tree is that of the derivation. -/
def Derived (r : Rank) (w : List Token) (e : Expr) : Prop := Expression r w e.bare

/-- Operands with operators between them: `A` is kept by an operator with an operand behind it. -/
theorem chain_reads {Op : Type} {operand : Parser Expr} {find : Token → Option Op}
    {build : Mark → Op → Expr → Expr → Expr} {A B : List Token → Expr → Prop}
    (ho : Reads operand Expr.ids B) (hend : find .endOfInput = none)
    (hstep : ∀ {u v t op l r} (m : Mark), find t = some op → A u l → B v r →
      A (u ++ t :: v) (build m op l r))
    (hids : ∀ m op l r, (build m op l r).ids = l.ids ++ r.ids ++ [m.id]) :
    ∀ (f : Nat) {u : List Token} {left e : Expr} {c c' : Cursor}, A u left →
      chain operand find build f left c = .ok e c' →
      ∃ w is, Moves c w is c' ∧ A (u ++ w) e ∧ e.ids = left.ids ++ is
  | 0, _, _, _, _, _, _, h => by simp [chain, exhausted_eq_ok] at h
  | f + 1, u, left, e, c, c', hA, h => by
    simp only [chain, bind_eq_ok] at h
    obtain ⟨t, c₁, hp, h⟩ := h
    obtain ⟨rfl, hf⟩ := peek_eq_ok hp
    cases hop : find t.token with
    | none =>
      simp only [hop, pure_eq_ok] at h
      obtain ⟨rfl, rfl⟩ := h
      exact ⟨[], [], .refl _, by simpa using hA, by simp⟩
    | some op =>
      simp only [hop, bind_eq_ok] at h
      obtain ⟨t', c₂, hn, right, c₃, hr, m, c₄, hm, h⟩ := h
      have ht : t.token ≠ .endOfInput := fun ht => by rw [ht, hend] at hop; cases hop
      obtain ⟨v, hv, hB⟩ := ho hr
      have hmv := ((next_moves hf ht hn).2.trans hv).trans (mint_moves hm)
      obtain ⟨w, is, hw, hA', he⟩ :=
        chain_reads ho hend hstep hids f (hstep m hop hA hB) h
      refine ⟨t.token :: v ++ w, right.ids ++ [m.id] ++ is, ?_, by simpa using hA', ?_⟩
      · simpa using hmv.trans hw
      · rw [he, hids]
        simp

theorem operator_of_atLevel {level : Nat} {t : Token} {op : BinaryOp}
    (h : BinaryOp.atLevel? level t = some op) : t = .symbol op.symbol ∧ op.level = level := by
  obtain ⟨ho, hl⟩ := Option.filter_eq_some_iff.mp h
  refine ⟨?_, by simpa using hl⟩
  unfold BinaryOp.ofToken? at ho
  split at ho <;> cases ho <;> rfl

theorem unaryOp_eq {t : Token} {op : UnaryOp} (h : UnaryOp.ofToken? t = some op) :
    t = .symbol op.symbol := by
  unfold UnaryOp.ofToken? at h
  split at h <;> cases h <;> rfl

theorem logicalOp_eq {op op' : LogicalOp} {t : Token} (h : logicalOp? op t = some op') :
    t = .symbol op.symbol ∧ op' = op := by
  unfold logicalOp? at h
  split at h
  next s =>
    split at h
    next hs => exact ⟨by rw [hs], (Option.some.inj h).symm⟩
    next => cases h
  next => cases h

theorem operand_reads {unary : Parser Expr} (h : Reads unary Expr.ids (Derived .unary))
    (f level : Nat) :
    Reads (operand unary f level) Expr.ids (Derived (.operand level)) := by
  induction level with
  | zero =>
    intro c e c' he
    obtain ⟨w, hm, hd⟩ := h he
    exact ⟨w, hm, .ofUnary hd⟩
  | succ level ih =>
    intro c e c' he
    simp only [operand, bind_eq_ok] at he
    obtain ⟨left, c₁, hl, he⟩ := he
    obtain ⟨u, hu, hd⟩ := ih hl
    obtain ⟨w, is, hw, hA, hi⟩ := chain_reads (A := Derived (.operand (level + 1))) ih rfl
      (fun {u v t op l r} m hop hl hr => by
        obtain ⟨rfl, hlevel⟩ := operator_of_atLevel hop
        exact .binary op hlevel hl hr)
      (fun m op l r => by simp [Expr.ids]) f (Expression.lift hd) he
    exact ⟨u ++ w, hi ▸ hu.trans hw, hA⟩

theorem logicalAnd_reads {unary : Parser Expr} (h : Reads unary Expr.ids (Derived .unary))
    (f : Nat) : Reads (logicalAnd unary f) Expr.ids (Derived .and) := by
  intro c e c' he
  simp only [logicalAnd, bind_eq_ok] at he
  obtain ⟨left, c₁, hl, he⟩ := he
  obtain ⟨u, hu, hd⟩ := operand_reads h f _ hl
  obtain ⟨w, is, hw, hA, hi⟩ := chain_reads (A := Derived .and) (operand_reads h f _) rfl
    (fun {u v t op l r} m hop hl hr => by
      obtain ⟨rfl, rfl⟩ := logicalOp_eq hop
      exact .and hl hr)
    (fun m op l r => by simp [Expr.ids]) f (Expression.ofOperand hd) he
  exact ⟨u ++ w, hi ▸ hu.trans hw, hA⟩

theorem logicalOr_reads {unary : Parser Expr} (h : Reads unary Expr.ids (Derived .unary))
    (f : Nat) : Reads (logicalOr unary f) Expr.ids (Derived .or) := by
  intro c e c' he
  simp only [logicalOr, bind_eq_ok] at he
  obtain ⟨left, c₁, hl, he⟩ := he
  obtain ⟨u, hu, hd⟩ := logicalAnd_reads h f hl
  obtain ⟨w, is, hw, hA, hi⟩ := chain_reads (A := Derived .or) (logicalAnd_reads h f) rfl
    (fun {u v t op l r} m hop hl hr => by
      obtain ⟨rfl, rfl⟩ := logicalOp_eq hop
      exact .or hl hr)
    (fun m op l r => by simp [Expr.ids]) f (Expression.ofAnd hd) he
  exact ⟨u ++ w, hi ▸ hu.trans hw, hA⟩

/-- A leaf is the token in front of it. -/
theorem leaf_moves {t : PlacedToken} {c c' : Cursor} {build : Mark → Expr} {e : Expr}
    (hf : Front c t) (ht : t.token ≠ .endOfInput) (hids : ∀ m, (build m).ids = [m.id])
    (h : leaf t.span build c = .ok e c') :
    Moves c [t.token] e.ids c' ∧ ∃ m, e = build m := by
  simp only [leaf, bind_eq_ok, pure_eq_ok] at h
  obtain ⟨t', c₁, hn, m, c₂, hm, rfl, rfl⟩ := h
  exact ⟨hids m ▸ (next_moves hf ht hn).2.trans (mint_moves hm), m, rfl⟩

theorem primary_reads {expression : Parser Expr}
    (h : Reads expression Expr.ids (Derived .assignment)) :
    Reads (primary expression) Expr.ids (Derived .primary) := by
  intro c e c' he
  simp only [primary, bind_eq_ok] at he
  obtain ⟨t, c₁, hp, he⟩ := he
  obtain ⟨rfl, hf⟩ := peek_eq_ok hp
  have hleaf {build : Mark → Expr} (ht : t.token ≠ .endOfInput)
      (hids : ∀ m, (build m).ids = [m.id]) (he : leaf t.span build c₁ = .ok e c')
      (hd : ∀ m, Derived .primary [t.token] (build m)) :
      ∃ w, Moves c₁ w e.ids c' ∧ Derived .primary w e := by
    obtain ⟨hm, m, rfl⟩ := leaf_moves hf ht hids he
    exact ⟨_, hm, hd m⟩
  change answer _ c₁ = _ at he
  split at he
  all_goals try rename_i hx
  · exact hleaf (by simp [hx]) (by simp [Expr.ids]) he fun m => hx ▸ .constant .nil
  · exact hleaf (by simp [hx]) (by simp [Expr.ids]) he fun m => hx ▸ .constant .true
  · exact hleaf (by simp [hx]) (by simp [Expr.ids]) he fun m => hx ▸ .constant .false
  · exact hleaf (by simp [hx]) (by simp [Expr.ids]) he fun m => hx ▸ .constant (.number _)
  · exact hleaf (by simp [hx]) (by simp [Expr.ids]) he fun m => hx ▸ .constant (.text _)
  · exact hleaf (by simp [hx]) (by simp [Expr.ids]) he fun m => hx ▸ .name _
  · exact hleaf (by simp [hx]) (by simp [Expr.ids]) he fun m => hx ▸ .this
  · simp only [answer, bind_eq_ok, within_eq_ok, pure_eq_ok] at he
    obtain ⟨x, c₂, ⟨c₃, ⟨t', c₄, hn, sp, c₅, hdot, hname⟩, rfl⟩, m, c₆, hm, rfl, rfl⟩ := he
    have h₁ := (next_moves (hf.in_construct _) (by simp [hx]) hn).2
    have h₂ := ((h₁.trans (expect_moves hdot)).trans (expectName_moves hname)).of_constructs
    refine ⟨_, h₂.trans (mint_moves hm), ?_⟩
    simpa [hx, Derived, Expr.bare] using Expression.super x.name
  · simp only [answer, bind_eq_ok, within_eq_ok, pure_eq_ok] at he
    obtain ⟨p, c₂, ⟨c₃, ⟨t', c₄, hn, inner, c₅, hi, stop, c₆, hstop, rfl, rfl⟩, rfl⟩, m, c₇, hm,
      rfl, rfl⟩ := he
    obtain ⟨w, hw, hd⟩ := h hi
    have h₁ := (next_moves (hf.in_construct _) (by simp [hx]) hn).2
    have h₂ := ((h₁.trans hw).trans (expect_moves hstop)).of_constructs
    refine ⟨_, (by simpa [Expr.ids] using h₂.trans (mint_moves hm)), ?_⟩
    simpa [hx, Derived, Expr.bare] using Expression.group hd
  · simp [answer, refuse_eq_ok] at he

/-- The arguments of a call up to the closing parenthesis. -/
theorem arguments_reads {expression : Parser Expr}
    (h : Reads expression Expr.ids (Derived .assignment)) (f : Nat) {c c' : Cursor}
    {p : List Expr × Span} (ha : arguments expression f c = .ok p c') :
    ∃ xs : List (List Token × Expr), xs.length ≤ maxArguments ∧ p.1 = xs.map Prod.snd ∧
      (∀ x ∈ xs, Derived .assignment x.1 x.2) ∧
      Moves c (commaSeparated (xs.map Prod.fst) ++ [.symbol .closeParen])
        (xs.flatMap fun x => x.2.ids) c' :=
  commaListBefore_reads h ha

/-- Calls and property accesses behind an expression that is a call itself. -/
theorem suffixes_reads {expression : Parser Expr}
    (h : Reads expression Expr.ids (Derived .assignment)) :
    ∀ (f : Nat) {u : List Token} {e e' : Expr} {c c' : Cursor}, Derived .call u e →
      suffixes expression f e c = .ok e' c' →
      ∃ w is, Moves c w is c' ∧ Derived .call (u ++ w) e' ∧ e'.ids = e.ids ++ is
  | 0, _, _, _, _, _, _, he => by simp [suffixes, exhausted_eq_ok] at he
  | f + 1, u, e, e', c, c', hd, he => by
    simp only [suffixes, bind_eq_ok] at he
    obtain ⟨t, c₁, hp, he⟩ := he
    obtain ⟨rfl, hf⟩ := peek_eq_ok hp
    change answer _ c₁ = _ at he
    split at he
    next ht =>
      simp only [answer, bind_eq_ok, within_eq_ok] at he
      obtain ⟨p, c₂, ⟨c₃, ⟨t', c₄, hn, ha⟩, rfl⟩, m, c₅, hm, he⟩ := he
      obtain ⟨xs, hlen, hxs, hall, hmv⟩ := arguments_reads h f ha
      have h₁ := (next_moves (hf.in_construct _) (by simp [ht]) hn).2
      have h₂ := (h₁.trans hmv).of_constructs
      have hcall := Expression.call (xs.map fun x => (x.1, x.2.bare)) hd (by simpa using hlen)
        (by
          intro a ha
          obtain ⟨x, hx, rfl⟩ := List.mem_map.mp ha
          exact hall x hx)
      obtain ⟨w, is, hw, hd', hi⟩ := suffixes_reads h f
        (e := .call m e p.1) (by simpa [Derived, Expr.bare, hxs, Function.comp_def] using hcall) he
      refine ⟨_, _, (h₂.trans (mint_moves hm)).trans hw, ?_, ?_⟩
      · simpa [ht, Function.comp_def] using hd'
      · simp [hi, Expr.ids, hxs, List.flatMap_map]
    next ht =>
      simp only [answer, bind_eq_ok, within_eq_ok] at he
      obtain ⟨x, c₂, ⟨c₃, ⟨t', c₄, hn, hx⟩, rfl⟩, m, c₅, hm, he⟩ := he
      have h₁ := (next_moves (hf.in_construct _) (by simp [ht]) hn).2
      have h₂ := (h₁.trans (expectName_moves hx)).of_constructs
      obtain ⟨w, is, hw, hd', hi⟩ := suffixes_reads h f
        (e := .get m e x.name) (Expression.get x.name hd) he
      refine ⟨_, _, (h₂.trans (mint_moves hm)).trans hw, ?_, ?_⟩
      · simpa [ht] using hd'
      · simp [hi, Expr.ids]
    next =>
      simp only [answer, pure_eq_ok] at he
      obtain ⟨rfl, rfl⟩ := he
      exact ⟨[], [], .refl _, by simpa using hd, by simp⟩

theorem call_reads {expression : Parser Expr}
    (h : Reads expression Expr.ids (Derived .assignment)) (f : Nat) :
    Reads (call expression f) Expr.ids (Derived .call) := by
  intro c e c' he
  simp only [call, bind_eq_ok] at he
  obtain ⟨e₁, c₁, hp, he⟩ := he
  obtain ⟨u, hu, hd⟩ := primary_reads h hp
  obtain ⟨w, is, hw, hd', hi⟩ := suffixes_reads h f (Expression.ofPrimary hd) he
  exact ⟨u ++ w, hi ▸ hu.trans hw, hd'⟩

/-- An assignment goes to a variable or to a property of a call. Of the identities given out, that
of the target itself goes unused. -/
theorem assignTo_reads {target value e : Expr} {sign : Span} {build : Mark → Expr} {m : Mark}
    {c c' : Cursor} {u v : List Token} (h : assignTo target sign value c = .ok build c')
    (hu : Derived .or u target) (hv : Derived .assignment v value) (he : build m = e) :
    c' = c ∧ Derived .assignment (u ++ .symbol .equal :: v) e ∧
      e.ids.Sublist (target.ids ++ value.ids ++ [m.id]) := by
  subst he
  unfold assignTo at h
  change answer _ c = _ at h
  split at h
  next m' x =>
    obtain ⟨rfl, rfl⟩ := pure_eq_ok.mp h
    obtain rfl := hu.eq_of_variable
    refine ⟨rfl, .assign x hv, ?_⟩
    simp [Expr.ids]
  next m' o x =>
    obtain ⟨rfl, rfl⟩ := pure_eq_ok.mp h
    obtain ⟨u, rfl, ho⟩ := hu.eq_of_get
    refine ⟨rfl, by simpa [Derived, Expr.bare] using Expression.set x ho hv, ?_⟩
    simp [Expr.ids]
  next => simp [answer, refuse_eq_ok] at h

mutual

/-- **What is read as an expression is one.** -/
theorem expression_reads : ∀ f, Reads (expression f) Expr.ids (Derived .assignment)
  | 0 => fun c e c' h => by simp [expression, exhausted_eq_ok] at h
  | f + 1 => by
    have h := (assignment_reads f).within (k := .expr)
    intro c e c' he
    simp only [expression, staged_eq] at he
    exact h he

theorem assignment_reads : ∀ f, Reads (assignment f) Expr.ids (Derived .assignment)
  | 0 => fun c e c' h => by simp [assignment, exhausted_eq_ok] at h
  | f + 1 => by
    intro c e c' he
    simp only [assignment, staged_eq, bind_eq_ok] at he
    obtain ⟨target, c₁, ht, o, c₂, ho, he⟩ := he
    obtain ⟨u, hu, hd⟩ := logicalOr_reads (unary_reads f) f ht
    cases o with
    | none =>
      obtain ⟨rfl, -⟩ := takeIf_none ho
      obtain ⟨rfl, rfl⟩ := pure_eq_ok.mp he
      exact ⟨u, hu, .ofOr hd⟩
    | some sign =>
      simp only [bind_eq_ok, within_eq_ok, pure_eq_ok] at he
      obtain ⟨p, c₃, ⟨c₄, ⟨value, c₅, hv, build, c₆, hb, rfl, rfl⟩, rfl⟩, m, c₇, hm, rfl, rfl⟩ := he
      obtain ⟨v, hmv, hdv⟩ := assignment_reads f hv
      obtain ⟨rfl, hda, hids⟩ := assignTo_reads (m := m) hb hd hdv rfl
      have h₁ := (hu.trans (takeIf_some_moves ho)).trans hmv.of_constructs
      exact ⟨_, ((h₁.trans (mint_moves hm)).sublist (by simpa using hids)), by simpa using hda⟩

theorem unary_reads : ∀ f, Reads (unary f) Expr.ids (Derived .unary)
  | 0 => fun c e c' h => by simp [unary, exhausted_eq_ok] at h
  | f + 1 => by
    intro c e c' he
    simp only [unary, staged_eq, bind_eq_ok] at he
    obtain ⟨t, c₁, hp, he⟩ := he
    obtain ⟨rfl, hf⟩ := peek_eq_ok hp
    cases hop : UnaryOp.ofToken? t.token with
    | none =>
      simp only [hop] at he
      obtain ⟨w, hw, hd⟩ := call_reads (expression_reads f) f he
      exact ⟨w, hw, .ofCall hd⟩
    | some op =>
      simp only [hop, bind_eq_ok, pure_eq_ok] at he
      obtain ⟨t', c₂, hn, e₁, c₃, he₁, m, c₄, hm, rfl, rfl⟩ := he
      have ht : t.token = .symbol op.symbol := unaryOp_eq hop
      obtain ⟨w, hw, hd⟩ := unary_reads f he₁
      have h₁ := ((next_moves hf (by simp [ht]) hn).2.trans hw).trans (mint_moves hm)
      exact ⟨_, by simpa [Expr.ids] using h₁, by
        simpa [ht, Derived, Expr.bare] using Expression.unary op hd⟩

end

/-! ### Statements -/

/-- The tokens are derived by the nonterminal `k`, and the statement is that of the derivation. -/
def Written (k : Category) (w : List Token) (s : Stmt) : Prop :=
  ∃ p, Sentence k w p ∧ s.bare = p.stmt

/-- Whenever `p` succeeds, it has read a statement of the category `k`. If that ends with an `if`
that has no `else`, no `else` is left in front of the cursor. -/
def ReadsStmt (k : Category) (p : Parser Stmt) : Prop :=
  ∀ ⦃c s c'⦄, p c = .ok s c' → ∃ w q, Moves c w s.ids c' ∧ Sentence k w q ∧ s.bare = q.stmt ∧
    (q.endsOpen = true → FreeOf .elseWord c')

theorem ReadsStmt.reads {k : Category} {p : Parser Stmt} (h : ReadsStmt k p) :
    Reads p Stmt.ids (Written k) := by
  intro c s c' hs
  obtain ⟨w, q, hm, hd, hq, -⟩ := h hs
  exact ⟨w, hm, q, hd, hq⟩

theorem ReadsStmt.within {k : Category} {p : Parser Stmt} {construct : Construct}
    (h : ReadsStmt k p) : ReadsStmt k (within construct p) := by
  intro c s c' hw
  obtain ⟨c₁, hp, rfl⟩ := within_eq_ok.mp hw
  obtain ⟨w, q, hm, hd, hq, hopen⟩ := h hp
  exact ⟨w, q, hm.of_constructs, hd, hq, fun h t ht => hopen h t ht⟩

/-- The tokens are derived as a function, and the declaration is that of the derivation. -/
def FunctionWritten (w : List Token) (d : FunctionDecl) : Prop :=
  ∃ p, Sentence .function w (.function p) ∧ d.bare = p.decl

/-- Choosing a derivation for each item of a list. -/
theorem choose_each {α β γ : Type} {S : List Token → β → Prop} {g : α → γ} {h : β → γ} :
    ∀ xs : List (List Token × α), (∀ x ∈ xs, ∃ b, S x.1 b ∧ g x.2 = h b) →
      ∃ ys : List (List Token × β), ys.map Prod.fst = xs.map Prod.fst ∧
        (∀ y ∈ ys, S y.1 y.2) ∧ (xs.map Prod.snd).map g = (ys.map Prod.snd).map h
  | [], _ => ⟨[], rfl, by simp, rfl⟩
  | x :: xs, hx => by
    obtain ⟨b, hb, hg⟩ := hx x (by simp)
    obtain ⟨ys, h₁, h₂, h₃⟩ := choose_each xs fun y hy => hx y (by simp [hy])
    refine ⟨(x.1, b) :: ys, by simp [h₁], ?_, ?_⟩
    · intro y hy
      rcases List.mem_cons.mp hy with rfl | hy
      · exact hb
      · exact h₂ y hy
    · simp only [List.map_cons, hg, h₃]

/-- The tokens are derived as a block, and the statements are those of the derivation. -/
def BlockWritten (w : List Token) (ss : List Stmt) : Prop :=
  ∃ body : List (List Token × Phrase),
    w = .symbol .openBrace :: ((body.map Prod.fst).flatten ++ [.symbol .closeBrace]) ∧
    (∀ d ∈ body, Sentence .declaration d.1 d.2) ∧
    ss.map Stmt.bare = (body.map Prod.snd).map Phrase.stmt

section Parts

variable {expression : Parser Expr} {declaration statement : Parser Stmt}

theorem block_reads (h : Reads declaration Stmt.ids (Written .declaration)) (f : Nat) :
    Reads (block declaration f) Stmt.idsOf BlockWritten := by
  refine Reads.within fun c ss c' hb => ?_
  simp only [bind_eq_ok, pure_eq_ok] at hb
  obtain ⟨sp, c₁, ho, body, c₂, hu, sp', c₃, hc, rfl, rfl⟩ := hb
  obtain ⟨xs, rfl, hall, hm⟩ := upToBrace_reads h f hu
  obtain ⟨ys, h₁, h₂, h₃⟩ := choose_each xs hall
  have hmv := ((expect_moves ho).trans hm).trans (expect_moves hc)
  refine ⟨_, by simpa [List.flatMap_map] using hmv, ys, by simp [h₁], h₂, ?_⟩
  simpa using h₃

theorem function_reads (h : Reads declaration Stmt.ids (Written .declaration)) (f : Nat) :
    Reads (function declaration f) FunctionDecl.ids FunctionWritten := by
  have hname : Reads expectName (fun _ => []) fun w d => w = [.name d.name] :=
    fun c d c' hd => ⟨_, expectName_moves hd, rfl⟩
  refine Reads.within fun c d c' hf => ?_
  simp only [bind_eq_ok, pure_eq_ok] at hf
  obtain ⟨x, c₁, hx, sp, c₂, ho, p, c₃, hp, body, c₄, hb, rfl, rfl⟩ := hf
  obtain ⟨xs, hlen, hxs, hall, hm⟩ := commaListBefore_reads hname hp
  obtain ⟨v, hmv, ys, rfl, hys, hbody⟩ := block_reads h f hb
  have hfst : xs.map Prod.fst = (p.1.map Declared.name).map fun x => [.name x] := by
    rw [hxs, List.map_map, List.map_map]
    exact List.map_congr_left fun x hx => hall x hx
  have hmoves := (((expectName_moves hx).trans (expect_moves ho)).trans hm).trans hmv
  have hnone : (xs.flatMap fun _ => ([] : List Nat)) = [] := by simp
  refine ⟨_, by simpa [FunctionDecl.ids, hnone] using hmoves,
    .mk x.name (p.1.map Declared.name) (ys.map Prod.snd), ?_, ?_⟩
  · rw [hfst]
    simpa using Sentence.function x.name (p.1.map Declared.name) ys (by simpa [hxs] using hlen) hys
  · simpa [FunctionDecl.bare, FunctionPhrase.decl, Declared.bare, Declared.ofName,
      Function.comp_def] using hbody

theorem superclass_moves {u : NameUse} {c c' : Cursor} (h : superclass c = .ok u c') :
    Moves c [.name u.name] [u.mark.id] c' := by
  simp only [superclass, bind_eq_ok, pure_eq_ok] at h
  obtain ⟨d, c₁, hd, m, c₂, hm, rfl, rfl⟩ := h
  exact (expectName_moves hd).trans (mint_moves hm)

theorem classDecl_reads (h : Reads declaration Stmt.ids (Written .declaration)) (f : Nat) :
    ReadsStmt .declaration (classDecl declaration f) := by
  refine ReadsStmt.within fun c s c' hs => ?_
  simp only [bind_eq_ok, pure_eq_ok] at hs
  obtain ⟨start, c₁, hc, x, c₂, hx, parent, c₃, hp, sp, c₄, ho, ms, c₅, hm, stop, c₆, hstop, rfl,
    rfl⟩ := hs
  obtain ⟨xs, rfl, hall, hmv⟩ := upToBrace_reads (function_reads h f) f hm
  obtain ⟨ys, h₁, h₂, h₃⟩ :=
    choose_each (S := fun w p => Sentence .function w (.function p)) xs hall
  have hclass := Sentence.classDecl x.name (parent.map NameUse.name) ys h₂
  have hpar : Moves c₂ (superclassTokens (parent.map NameUse.name))
      ((parent.map fun u => u.mark.id).toList) c₃ := by
    rcases behind_reads hp with ⟨rfl, rfl, -⟩ | ⟨u, c₇, rfl, hl, hu⟩
    · exact .refl _
    · exact hl.trans (superclass_moves hu)
  have hmoves := (((((expect_moves hc).trans (expectName_moves hx)).trans hpar).trans
    (expect_moves ho)).trans hmv).trans (expect_moves hstop)
  refine ⟨_, _, ?_, by simpa [h₁] using hclass, ?_, by simp [Phrase.endsOpen]⟩
  · cases parent <;> simpa [Stmt.ids, List.flatMap_map] using hmoves
  · cases parent <;> simpa [Stmt.bare, Phrase.stmt, Declared.bare, Declared.ofName, NameUse.bare]
      using h₃

theorem funDecl_reads (h : Reads declaration Stmt.ids (Written .declaration)) (f : Nat)
    {c c' : Cursor} {t : PlacedToken} {s : Stmt} (hf : Front c t) (ht : t.token = .symbol .funWord)
    (hs : funDecl declaration f c = .ok s c') :
    ∃ w q, Moves c w s.ids c' ∧ Sentence .declaration w q ∧ s.bare = q.stmt ∧
      (q.endsOpen = true → FreeOf .elseWord c') := by
  simp only [funDecl, bind_eq_ok, pure_eq_ok, last_eq_ok] at hs
  obtain ⟨t', c₁, hn, d, c₂, hd, sp, c₃, ⟨-, rfl⟩, rfl, rfl⟩ := hs
  obtain ⟨w, hw, p, hp, hbare⟩ := function_reads h f hd
  have hmv := (next_moves hf (by simp [ht]) hn).2.trans hw
  refine ⟨_, .function p, by simpa [Stmt.ids] using hmv, ?_, ?_, by simp [Phrase.endsOpen]⟩
  · simpa [ht] using Sentence.funDecl hp
  · simp [Stmt.bare, Phrase.stmt, hbare]

theorem varDecl_reads (h : Reads expression Expr.ids (Derived .assignment)) :
    ReadsStmt .varDecl (varDecl expression) := by
  refine ReadsStmt.within fun c s c' hs => ?_
  simp only [bind_eq_ok, pure_eq_ok] at hs
  obtain ⟨start, c₁, hv, x, c₂, hx, init, c₃, hi, stop, c₄, hstop, rfl, rfl⟩ := hs
  have hinit : ∃ w, Moves c₂ w (Expr.optionalIds init) c₃ ∧ Initializer w (init.map Expr.bare) := by
    rcases behind_reads hi with ⟨rfl, rfl, -⟩ | ⟨e, c₅, rfl, hl, he⟩
    · exact ⟨[], .refl _, .none⟩
    · obtain ⟨w, hw, hd⟩ := h he
      exact ⟨_, hl.trans hw, .some hd⟩
  obtain ⟨w, hw, hd⟩ := hinit
  have hmv := (((expect_moves hv).trans (expectName_moves hx)).trans hw).trans (expect_moves hstop)
  refine ⟨_, .var x.name (init.map Expr.bare), by simpa [Stmt.ids] using hmv, ?_, rfl,
    by simp [Phrase.endsOpen]⟩
  simpa using Sentence.var x.name hd

theorem exprStmt_reads (h : Reads expression Expr.ids (Derived .assignment)) :
    ReadsStmt .exprStmt (exprStmt expression) := by
  refine ReadsStmt.within fun c s c' hs => ?_
  simp only [bind_eq_ok, pure_eq_ok] at hs
  obtain ⟨e, c₁, he, stop, c₂, hstop, rfl, rfl⟩ := hs
  obtain ⟨w, hw, hd⟩ := h he
  exact ⟨_, _, by simpa [Stmt.ids] using hw.trans (expect_moves hstop), .expression hd, rfl,
    by simp [Phrase.endsOpen]⟩

theorem printStmt_reads (h : Reads expression Expr.ids (Derived .assignment)) :
    ReadsStmt .statement (printStmt expression) := by
  refine ReadsStmt.within fun c s c' hs => ?_
  simp only [bind_eq_ok, pure_eq_ok] at hs
  obtain ⟨start, c₁, hp, e, c₂, he, stop, c₃, hstop, rfl, rfl⟩ := hs
  obtain ⟨w, hw, hd⟩ := h he
  have hmv := ((expect_moves hp).trans hw).trans (expect_moves hstop)
  exact ⟨_, _, by simpa [Stmt.ids] using hmv, by simpa using Sentence.print hd, rfl,
    by simp [Phrase.endsOpen]⟩

theorem unlessNext_optional (h : Reads expression Expr.ids (Derived .assignment)) {s : Symbol}
    {o : Option Expr} {c c' : Cursor} (ho : unlessNext s expression c = .ok o c') :
    ∃ w, Moves c w (Expr.optionalIds o) c' ∧
      Optional (Expression .assignment) w (o.map Expr.bare) := by
  rcases unlessNext_reads ho with ⟨rfl, rfl⟩ | ⟨e, rfl, he⟩
  · exact ⟨[], .refl _, .none⟩
  · obtain ⟨w, hw, hd⟩ := h he
    exact ⟨w, hw, .some hd⟩

theorem returnStmt_reads (h : Reads expression Expr.ids (Derived .assignment)) :
    ReadsStmt .statement (returnStmt expression) := by
  refine ReadsStmt.within fun c s c' hs => ?_
  simp only [bind_eq_ok, pure_eq_ok] at hs
  obtain ⟨start, c₁, hr, o, c₂, ho, stop, c₃, hstop, rfl, rfl⟩ := hs
  obtain ⟨w, hw, hd⟩ := unlessNext_optional h ho
  have hmv := ((expect_moves hr).trans hw).trans (expect_moves hstop)
  exact ⟨_, _, by simpa [Stmt.ids] using hmv, by simpa using Sentence.return hd, rfl,
    by simp [Phrase.endsOpen]⟩

theorem ifStmt_reads (he : Reads expression Expr.ids (Derived .assignment))
    (hs : ReadsStmt .statement statement) : ReadsStmt .statement (ifStmt expression statement) := by
  refine ReadsStmt.within fun c s c' h => ?_
  simp only [bind_eq_ok, pure_eq_ok, last_eq_ok] at h
  obtain ⟨start, c₁, hi, sp, c₂, ho, e, c₃, hc, sp', c₄, hp, yes, c₅, hy, no, c₆, hn, stop, c₇,
    ⟨-, rfl⟩, rfl, rfl⟩ := h
  obtain ⟨u, hu, hde⟩ := he hc
  obtain ⟨v, p, hv, hpy, hyes, hopen⟩ := hs hy
  have hmv :=
    ((((expect_moves hi).trans (expect_moves ho)).trans hu).trans (expect_moves hp)).trans hv
  rcases behind_reads hn with ⟨rfl, rfl, hfree⟩ | ⟨n, c₈, rfl, hl, hn⟩
  · refine ⟨_, .branch e.bare p, by simpa [Stmt.ids, Stmt.optionalIds] using hmv, ?_, ?_,
      fun _ => hfree⟩
    · simpa using Sentence.branch hde hpy
    · simp [Stmt.bare, Phrase.stmt, hyes]
  · obtain ⟨w, q, hw, hpn, hno, hopen'⟩ := hs hn
    -- an open `if` at the end of `yes` would have taken the `else` for itself
    have hclosed : p.endsOpen = false := by
      by_contra hne
      obtain ⟨used, hrest, hused⟩ := hl.rest
      obtain ⟨t, rfl, ht⟩ := List.map_eq_singleton_iff.mp hused
      exact hopen (by simpa using hne) t (.inr ⟨_, hrest⟩) ht
    refine ⟨_, .branchElse e.bare p q,
      by simpa [Stmt.ids, Stmt.optionalIds] using (hmv.trans hl).trans hw, ?_, ?_, hopen'⟩
    · simpa using Sentence.branchElse hde hpy hclosed hpn
    · simp [Stmt.bare, Phrase.stmt, hyes, hno]

theorem whileStmt_reads (he : Reads expression Expr.ids (Derived .assignment))
    (hs : ReadsStmt .statement statement) :
    ReadsStmt .statement (whileStmt expression statement) := by
  refine ReadsStmt.within fun c s c' h => ?_
  simp only [bind_eq_ok, pure_eq_ok, last_eq_ok] at h
  obtain ⟨start, c₁, hw, sp, c₂, ho, e, c₃, hc, sp', c₄, hp, body, c₅, hb, stop, c₆, ⟨-, rfl⟩, rfl,
    rfl⟩ := h
  obtain ⟨u, hu, hde⟩ := he hc
  obtain ⟨v, p, hv, hpb, hbody, hopen⟩ := hs hb
  have hmv :=
    ((((expect_moves hw).trans (expect_moves ho)).trans hu).trans (expect_moves hp)).trans hv
  refine ⟨_, .loop e.bare p, by simpa [Stmt.ids] using hmv, ?_, ?_, hopen⟩
  · simpa using Sentence.loop hde hpb
  · simp [Stmt.bare, Phrase.stmt, hbody]

/-- The initializer of a `for` statement, up to its semicolon. -/
theorem forInit_reads (h : Reads expression Expr.ids (Derived .assignment)) {c c' : Cursor}
    {o : Option Stmt} (ho : forInit expression c = .ok o c') :
    (o = none ∧ Moves c [.symbol .semicolon] [] c') ∨
      ∃ s w, o = some s ∧ Moves c w s.ids c' ∧ Written .forInit w s := by
  simp only [forInit, bind_eq_ok] at ho
  obtain ⟨t, c₁, hp, ho⟩ := ho
  obtain ⟨rfl, hf⟩ := peek_eq_ok hp
  change answer _ c₁ = _ at ho
  split at ho
  next ht =>
    simp only [answer, bind_eq_ok, pure_eq_ok] at ho
    obtain ⟨t', c₂, hn, rfl, rfl⟩ := ho
    exact .inl ⟨rfl, ht ▸ (next_moves hf (by simp [ht]) hn).2⟩
  next =>
    simp only [answer, bind_eq_ok, pure_eq_ok] at ho
    obtain ⟨s, c₂, hs, rfl, rfl⟩ := ho
    obtain ⟨w, q, hw, hd, hq, -⟩ := varDecl_reads h hs
    exact .inr ⟨s, w, rfl, hw, q, .initVar hd, hq⟩
  next =>
    simp only [answer, bind_eq_ok, pure_eq_ok] at ho
    obtain ⟨s, c₂, hs, rfl, rfl⟩ := ho
    obtain ⟨w, q, hw, hd, hq, -⟩ := exprStmt_reads h hs
    exact .inr ⟨s, w, rfl, hw, q, .initExpr hd, hq⟩

/-- The condition of a `for` statement is the one that was read, or new. -/
theorem forCondition_moves {sign : Span} {o : Option Expr} {e : Expr} {c c' : Cursor}
    (h : forCondition sign o c = .ok e c') :
    ∃ is, Moves c [] is c' ∧ c'.rest = c.rest ∧ e.ids = Expr.optionalIds o ++ is ∧
      e.bare = .orTrue (o.map Expr.bare) := by
  cases o with
  | some e' =>
    obtain ⟨rfl, rfl⟩ := pure_eq_ok.mp h
    exact ⟨[], .refl _, rfl, by simp [Expr.optionalIds], rfl⟩
  | none =>
    simp only [forCondition, bind_eq_ok, pure_eq_ok] at h
    obtain ⟨m, c₁, hm, rfl, rfl⟩ := h
    refine ⟨[m.id], mint_moves hm, ?_, by simp [Expr.optionalIds, Expr.ids], rfl⟩
    simp only [mint, Reply.ok.injEq] at hm
    rw [← hm.2]

theorem forStmt_reads (he : Reads expression Expr.ids (Derived .assignment))
    (hs : ReadsStmt .statement statement) :
    ReadsStmt .statement (forStmt expression statement) := by
  refine ReadsStmt.within fun c s c' h => ?_
  simp only [bind_eq_ok, pure_eq_ok, last_eq_ok] at h
  obtain ⟨start, c₁, hf, sp, c₂, ho, init, c₃, hi, cond, c₄, hc, sign, c₅, hsign, incr, c₆, hn,
    sp', c₇, hp, body, c₈, hb, stop, c₉, ⟨-, rfl⟩, e, c₁₀, hcond, rfl, rfl⟩ := h
  obtain ⟨u, hu, hdc⟩ := unlessNext_optional he hc
  obtain ⟨v, hv, hdn⟩ := unlessNext_optional he hn
  obtain ⟨w, p, hw, hpb, hbody, hopen⟩ := hs hb
  obtain ⟨is, hmi, hrest, hids, hbare⟩ := forCondition_moves hcond
  have hopen' : p.endsOpen = true → FreeOf .elseWord c₁₀ := fun h t ht =>
    hopen h t (by rw [Front, ← hrest]; exact ht)
  have h₁ := (expect_moves hf).trans (expect_moves ho)
  have h₂ := (((((hu.trans (expect_moves hsign)).trans hv).trans (expect_moves hp)).trans hw).trans
    hmi)
  rcases forInit_reads he hi with ⟨rfl, hm⟩ | ⟨s, i, rfl, hm, q, hdi, hq⟩
  · refine ⟨_, .forLoop none (cond.map Expr.bare) (incr.map Expr.bare) p,
      ((h₁.trans hm).trans h₂).perm ?_, ?_, ?_, hopen'⟩
    · rw [Stmt.ids_forLoop, hids]
      refine List.perm_iff_count.mpr fun a => ?_
      simp only [List.count_append, List.count_nil, Stmt.optionalIds]
      omega
    · simpa using Sentence.forBare hdc hdn hpb
    · simp [Stmt.bare_forLoop, Phrase.stmt_forLoop, hbody, hbare]
  · refine ⟨_, .forLoop (some q) (cond.map Expr.bare) (incr.map Expr.bare) p,
      ((h₁.trans hm).trans h₂).perm ?_, ?_, ?_, hopen'⟩
    · rw [Stmt.ids_forLoop, hids]
      refine List.perm_iff_count.mpr fun a => ?_
      simp only [List.count_append, List.count_nil, Stmt.optionalIds]
      omega
    · simpa using Sentence.forInit hdi hdc hdn hpb
    · simp [Stmt.bare_forLoop, Phrase.stmt_forLoop, hbody, hbare, hq]

theorem blockStmt_reads (h : Reads declaration Stmt.ids (Written .declaration)) (f : Nat) :
    ReadsStmt .statement (blockStmt declaration f) := by
  intro c s c' hs
  simp only [blockStmt, bind_eq_ok, pure_eq_ok, last_eq_ok] at hs
  obtain ⟨t, c₁, hp, body, c₂, hb, sp, c₃, ⟨-, rfl⟩, rfl, rfl⟩ := hs
  obtain ⟨rfl, -⟩ := peek_eq_ok hp
  obtain ⟨w, hw, ys, rfl, hys, hbody⟩ := block_reads h f hb
  refine ⟨_, .block (ys.map Prod.snd), by simpa [Stmt.ids] using hw, .block ys hys, ?_,
    by simp [Phrase.endsOpen]⟩
  simp [Stmt.bare, Phrase.stmt, hbody]

end Parts

mutual

/-- **What is read as a declaration is one.** -/
theorem declaration_reads : ∀ f, ReadsStmt .declaration (declaration f)
  | 0 => fun c s c' h => by simp [declaration, exhausted_eq_ok] at h
  | f + 1 => by
    intro c s c' h
    simp only [declaration, staged_eq, bind_eq_ok] at h
    obtain ⟨t, c₁, hp, h⟩ := h
    obtain ⟨rfl, hf⟩ := peek_eq_ok hp
    change answer _ c₁ = _ at h
    split at h
    next => exact classDecl_reads (declaration_reads f).reads f h
    next ht => exact funDecl_reads (declaration_reads f).reads f hf ht h
    next =>
      obtain ⟨w, q, hm, hd, hq⟩ := varDecl_reads (expression_reads f) h
      exact ⟨w, q, hm, .ofVarDecl hd, hq⟩
    next =>
      obtain ⟨w, q, hm, hd, hq⟩ := statement_reads f h
      exact ⟨w, q, hm, .ofStatement hd, hq⟩

theorem statement_reads : ∀ f, ReadsStmt .statement (statement f)
  | 0 => fun c s c' h => by simp [statement, exhausted_eq_ok] at h
  | f + 1 => by
    intro c s c' h
    simp only [statement, staged_eq, bind_eq_ok] at h
    obtain ⟨t, c₁, hp, h⟩ := h
    obtain ⟨rfl, hf⟩ := peek_eq_ok hp
    change answer _ c₁ = _ at h
    split at h
    next => exact forStmt_reads (expression_reads f) (statement_reads f) h
    next => exact ifStmt_reads (expression_reads f) (statement_reads f) h
    next => exact printStmt_reads (expression_reads f) h
    next => exact returnStmt_reads (expression_reads f) h
    next => exact whileStmt_reads (expression_reads f) (statement_reads f) h
    next => exact blockStmt_reads (declaration_reads f).reads f h
    next =>
      obtain ⟨w, q, hm, hd, hq⟩ := exprStmt_reads (expression_reads f) h
      exact ⟨w, q, hm, .ofExprStmt hd, hq⟩

end

end Parser
end ClassScript
