/-
# Proper trees

What the trees of parsed texts have besides their shape. No name is a keyword, so none
is spelled like the names `this` and `super` that the run itself binds, and neither a
branch nor the body of a loop is a declaration (`Stmt.Proper`). The identities of all
expressions of a text are different, and they lie in the stretch that parsing it has
given out.

Key theorems: `Sentence.proper`, `CharStream.parse_proper`.
-/
import ClassScript.Proofs.Syntax.Soundness
import ClassScript.Scope.Analysis

namespace ClassScript

/-- A name that the run does not bind by itself. -/
def ProperName (x : String) : Prop := x ≠ thisName ∧ x ≠ superName

/-- The name that a statement declares. -/
def Stmt.declares : Stmt → Option String
  | .var _ x _ => some x
  | .function _ d => some d.name
  | .classDecl _ d _ _ => some d.name
  | _ => none

mutual

/-- Assignments are to proper names. -/
def Expr.Proper : Expr → Prop
  | .literal _ _ | .variable _ _ | .this _ | .super _ _ => True
  | .group _ e | .unary _ _ e | .get _ e _ => e.Proper
  | .assign _ x e => ProperName x ∧ e.Proper
  | .binary _ _ l r | .logical _ _ l r => l.Proper ∧ r.Proper
  | .call _ callee args => callee.Proper ∧ Expr.ProperAll args
  | .set _ e _ v => e.Proper ∧ v.Proper

def Expr.ProperAll : List Expr → Prop
  | [] => True
  | e :: es => e.Proper ∧ Expr.ProperAll es

end

def Expr.OptionalProper : Option Expr → Prop
  | none => True
  | some e => e.Proper

mutual

/-- Declarations are of proper names, and neither a branch nor the body of a loop is one. -/
def Stmt.Proper : Stmt → Prop
  | .expression _ e | .print _ e => e.Proper
  | .var _ x init => ProperName x ∧ Expr.OptionalProper init
  | .block _ body => Stmt.ProperAll body
  | .branch _ c yes no =>
    c.Proper ∧ (yes.declares = none ∧ yes.Proper) ∧ Stmt.OptionalProper no
  | .loop _ c body => c.Proper ∧ body.declares = none ∧ body.Proper
  | .function _ d => d.Proper
  | .return _ value => Expr.OptionalProper value
  | .classDecl _ d _ methods => ProperName d.name ∧ FunctionDecl.ProperAll methods

def Stmt.ProperAll : List Stmt → Prop
  | [] => True
  | s :: ss => s.Proper ∧ Stmt.ProperAll ss

def Stmt.OptionalProper : Option Stmt → Prop
  | none => True
  | some s => s.declares = none ∧ s.Proper

def FunctionDecl.Proper : FunctionDecl → Prop
  | .mk d params body =>
    ProperName d.name ∧ (∀ p ∈ params, ProperName p.name) ∧ Stmt.ProperAll body

def FunctionDecl.ProperAll : List FunctionDecl → Prop
  | [] => True
  | d :: ds => d.Proper ∧ FunctionDecl.ProperAll ds

end

theorem Expr.properAll_iff : ∀ es : List Expr, Expr.ProperAll es ↔ ∀ e ∈ es, e.Proper
  | [] => by simp [Expr.ProperAll]
  | e :: es => by simp [Expr.ProperAll, Expr.properAll_iff es]

theorem Stmt.properAll_iff : ∀ ss : List Stmt, Stmt.ProperAll ss ↔ ∀ s ∈ ss, s.Proper
  | [] => by simp [Stmt.ProperAll]
  | s :: ss => by simp [Stmt.ProperAll, Stmt.properAll_iff ss]

theorem FunctionDecl.properAll_iff : ∀ ds : List FunctionDecl,
    FunctionDecl.ProperAll ds ↔ ∀ d ∈ ds, d.Proper
  | [] => by simp [FunctionDecl.ProperAll]
  | d :: ds => by simp [FunctionDecl.ProperAll, FunctionDecl.properAll_iff ds]

/-! ### Bare trees -/

@[simp] theorem Stmt.declares_bare (s : Stmt) : s.bare.declares = s.declares := by
  cases s with
  | function _ d => cases d; rfl
  | expression | print | var | block | branch | loop | «return» | classDecl => rfl

mutual

/-- Marks do not matter. -/
theorem Expr.proper_bare : ∀ e : Expr, e.bare.Proper ↔ e.Proper
  | .literal _ _ | .variable _ _ | .this _ | .super _ _ => Iff.rfl
  | .group _ e | .unary _ _ e | .get _ e _ => e.proper_bare
  | .assign _ _ e => and_congr Iff.rfl e.proper_bare
  | .binary _ _ l r | .logical _ _ l r => and_congr l.proper_bare r.proper_bare
  | .call _ callee args => and_congr callee.proper_bare (Expr.properAll_bare args)
  | .set _ e _ v => and_congr e.proper_bare v.proper_bare

theorem Expr.properAll_bare : ∀ es : List Expr,
    Expr.ProperAll (Expr.bareOf es) ↔ Expr.ProperAll es
  | [] => Iff.rfl
  | e :: es => and_congr e.proper_bare (Expr.properAll_bare es)

end

theorem Expr.optionalProper_bare : ∀ e : Option Expr,
    Expr.OptionalProper (e.map Expr.bare) ↔ Expr.OptionalProper e
  | none => Iff.rfl
  | some e => e.proper_bare

mutual

theorem Stmt.proper_bare : ∀ s : Stmt, s.bare.Proper ↔ s.Proper
  | .expression _ e | .print _ e => e.proper_bare
  | .var _ _ init => and_congr Iff.rfl (Expr.optionalProper_bare init)
  | .block _ body => Stmt.properAll_bare body
  | .branch _ c yes no =>
    and_congr c.proper_bare (and_congr (and_congr (by rw [Stmt.declares_bare]) yes.proper_bare)
      (Stmt.optionalProper_bare no))
  | .loop _ c body =>
    and_congr c.proper_bare (and_congr (by rw [Stmt.declares_bare]) body.proper_bare)
  | .function _ d => d.proper_bare
  | .return _ value => Expr.optionalProper_bare value
  | .classDecl _ _ _ methods => and_congr Iff.rfl (FunctionDecl.properAll_bare methods)

theorem Stmt.properAll_bare : ∀ ss : List Stmt,
    Stmt.ProperAll (Stmt.bareOf ss) ↔ Stmt.ProperAll ss
  | [] => Iff.rfl
  | s :: ss => and_congr s.proper_bare (Stmt.properAll_bare ss)

theorem Stmt.optionalProper_bare : ∀ s : Option Stmt,
    Stmt.OptionalProper (Stmt.optionalBare s) ↔ Stmt.OptionalProper s
  | none => Iff.rfl
  | some s => and_congr (by rw [Stmt.declares_bare]) s.proper_bare

theorem FunctionDecl.proper_bare : ∀ d : FunctionDecl, d.bare.Proper ↔ d.Proper
  | .mk d params body =>
    and_congr Iff.rfl (and_congr (by simp [Declared.bare]) (Stmt.properAll_bare body))

theorem FunctionDecl.properAll_bare : ∀ ds : List FunctionDecl,
    FunctionDecl.ProperAll (FunctionDecl.bareOf ds) ↔ FunctionDecl.ProperAll ds
  | [] => Iff.rfl
  | d :: ds => and_congr d.proper_bare (FunctionDecl.properAll_bare ds)

end

/-! ### Derivations -/

namespace Grammar

/-- The names among the tokens are proper. -/
def Named (w : List Token) : Prop := ∀ x, .name x ∈ w → ProperName x

variable {u w : List Token}

theorem Named.left (h : Named (u ++ w)) : Named u := fun x hx => h x (List.mem_append_left _ hx)

theorem Named.right (h : Named (u ++ w)) : Named w := fun x hx => h x (List.mem_append_right _ hx)

theorem Named.tail {t : Token} (h : Named (t :: w)) : Named w := fun x hx =>
  h x (List.mem_cons_of_mem _ hx)

theorem Named.of_commaSeparated : ∀ {ws : List (List Token)}, Named (commaSeparated ws) →
    ∀ w ∈ ws, Named w
  | [], _ => by simp
  | [w], h => by
    intro u hu
    rw [List.mem_singleton] at hu
    exact hu ▸ h
  | w :: v :: ws, h => by
    intro u hu
    rcases List.mem_cons.mp hu with rfl | hu
    · exact h.left
    · exact of_commaSeparated h.right.tail u hu

theorem Named.of_flatten {ws : List (List Token)} (h : Named ws.flatten) : ∀ w ∈ ws, Named w :=
  fun w hw x hx => h x (List.mem_flatten.mpr ⟨w, hw, hx⟩)

/-- An expression whose names are proper is proper. -/
theorem Expression.proper {r : Rank} {e : Expr} (h : Expression r w e) : Named w → e.Proper := by
  induction h with
  | assign x _ ih => exact fun hw => ⟨hw x (by simp), ih hw.tail.tail⟩
  | set x _ _ iho ih => exact fun hw => ⟨iho hw.left, ih hw.right.tail.tail.tail⟩
  | ofOr _ ih | ofAnd _ ih | ofOperand _ ih | lift _ ih | ofUnary _ ih | ofCall _ ih
  | ofPrimary _ ih => exact ih
  | or _ _ ihl ihr | and _ _ ihl ihr | binary _ _ _ _ ihl ihr =>
    exact fun hw => ⟨ihl hw.left, ihr hw.right.tail⟩
  | unary _ _ ih => exact fun hw => ih hw.tail
  | call args _ _ _ ihu ih =>
    refine fun hw => ⟨ihu hw.left, (Expr.properAll_iff _).mpr fun e he => ?_⟩
    obtain ⟨a, ha, rfl⟩ := List.mem_map.mp he
    exact ih a ha (Named.of_commaSeparated hw.right.tail.left _ (List.mem_map_of_mem ha))
  | get _ _ ih => exact fun hw => ih hw.left
  | constant | name | this | super => exact fun _ => trivial
  | group _ ih => exact fun hw => ih hw.tail.left

theorem Optional.proper {o : Option Expr} (h : Optional (Expression .assignment) w o)
    (hw : Named w) : Expr.OptionalProper o := by
  cases h with
  | none => trivial
  | some h => exact h.proper hw

/-- The nonterminals that derive no declaration. -/
def Category.declaresNothing : Category → Prop
  | .statement | .exprStmt => True
  | _ => False

theorem orTrue_proper {c : Option Expr} (h : Expr.OptionalProper c) : (Expr.orTrue c).Proper := by
  cases c with
  | none => trivial
  | some => exact h

theorem forLoop_proper (init : Option Phrase) {c i : Option Expr} {body : Phrase}
    (hinit : ∀ p ∈ init, p.stmt.Proper) (hc : Expr.OptionalProper c) (hi : Expr.OptionalProper i)
    (hbody : body.stmt.declares = none ∧ body.stmt.Proper) :
    (Phrase.forLoop init c i body).stmt.Proper ∧
      (Phrase.forLoop init c i body).stmt.declares = none := by
  have hc := orTrue_proper hc
  cases init <;> cases i <;>
    simp_all [Phrase.stmt, Stmt.Proper, Stmt.ProperAll, Stmt.declares, Expr.OptionalProper]

/-- **A sentence whose names are proper is proper,** and a statement declares nothing. -/
theorem Sentence.proper {k : Category} {p : Phrase} (h : Sentence k w p) :
    Named w → p.stmt.Proper ∧ (k.declaresNothing → p.stmt.declares = none) := by
  induction h with
  | classDecl x parent methods _ ih =>
    intro hw
    refine ⟨⟨hw x (by simp), ?_⟩, False.elim⟩
    rw [FunctionPhrase.decls_eq_map, FunctionDecl.properAll_iff]
    intro d hd
    obtain ⟨p, hp, rfl⟩ := List.mem_map.mp hd
    obtain ⟨m, hm, rfl⟩ := List.mem_map.mp hp
    exact (ih m hm (Named.of_flatten hw.tail.tail.right.tail.left _ (List.mem_map_of_mem hm))).1
  | funDecl _ ih => exact fun hw => ⟨(ih hw.tail).1, False.elim⟩
  | ofVarDecl _ ih | ofStatement _ ih | initVar _ ih | initExpr _ ih =>
    exact fun hw => ⟨(ih hw).1, False.elim⟩
  | function x params body _ _ ih =>
    intro hw
    refine ⟨⟨hw x (by simp), ?_, ?_⟩, False.elim⟩
    · intro d hd
      obtain ⟨y, hy, rfl⟩ := List.mem_map.mp hd
      exact Named.of_commaSeparated hw.tail.tail.left [.name y] (List.mem_map_of_mem hy) y (by simp)
    · rw [Phrase.stmts_eq_map, Stmt.properAll_iff]
      intro s hs
      obtain ⟨p, hp, rfl⟩ := List.mem_map.mp hs
      obtain ⟨d, hd, rfl⟩ := List.mem_map.mp hp
      exact (ih d hd (Named.of_flatten hw.tail.tail.right.tail.tail.left _
        (List.mem_map_of_mem hd))).1
  | var x h =>
    intro hw
    refine ⟨⟨hw x (by simp), ?_⟩, False.elim⟩
    cases h with
    | none => trivial
    | some h => exact h.proper hw.tail.tail.left.tail
  | ofExprStmt _ ih => exact fun hw => ⟨(ih hw).1, fun _ => (ih hw).2 trivial⟩
  | expression h => exact fun hw => ⟨h.proper hw.left, fun _ => rfl⟩
  | print h => exact fun hw => ⟨h.proper hw.tail.left, fun _ => rfl⟩
  | «return» h => exact fun hw => ⟨h.proper hw.tail.left, fun _ => rfl⟩
  | block body _ ih =>
    intro hw
    refine ⟨?_, fun _ => rfl⟩
    rw [Phrase.stmt, Stmt.Proper, Phrase.stmts_eq_map, Stmt.properAll_iff]
    intro s hs
    obtain ⟨p, hp, rfl⟩ := List.mem_map.mp hs
    obtain ⟨d, hd, rfl⟩ := List.mem_map.mp hp
    exact (ih d hd (Named.of_flatten hw.tail.left _ (List.mem_map_of_mem hd))).1
  | branch h _ ih =>
    intro hw
    have hyes := ih hw.tail.tail.right.tail
    exact ⟨⟨h.proper hw.tail.tail.left, ⟨hyes.2 trivial, hyes.1⟩, trivial⟩, fun _ => rfl⟩
  | branchElse h _ _ _ ihy ihn =>
    intro hw
    have hyes := ihy hw.tail.tail.right.tail.left
    have hno := ihn hw.tail.tail.right.tail.right.tail
    exact ⟨⟨h.proper hw.tail.tail.left, ⟨hyes.2 trivial, hyes.1⟩, hno.2 trivial, hno.1⟩,
      fun _ => rfl⟩
  | loop h _ ih =>
    intro hw
    have hbody := ih hw.tail.tail.right.tail
    exact ⟨⟨h.proper hw.tail.tail.left, hbody.2 trivial, hbody.1⟩, fun _ => rfl⟩
  | @forBare u v w c i body ho hi _ ih =>
    intro hw
    have hbody := ih hw.tail.tail.tail.right.tail.right.tail
    have h := forLoop_proper none (by simp) (ho.proper hw.tail.tail.tail.left)
      (hi.proper hw.tail.tail.tail.right.tail.left) ⟨hbody.2 trivial, hbody.1⟩
    exact ⟨h.1, fun _ => h.2⟩
  | @forInit j u v w p c i body _ ho hi _ ihj ih =>
    intro hw
    have hbody := ih hw.tail.tail.right.right.tail.right.tail
    have h := forLoop_proper (some p) (by simpa using (ihj hw.tail.tail.left).1)
      (ho.proper hw.tail.tail.right.left) (hi.proper hw.tail.tail.right.right.tail.left)
      ⟨hbody.2 trivial, hbody.1⟩
    exact ⟨h.1, fun _ => h.2⟩

end Grammar

/-! ### Texts -/

/-- A name token is no keyword. -/
def Lexeme.Proper (l : Lexeme) : Prop :=
  ∀ t x, l = .ok t → t.token = .name x → ProperName x

namespace Lexer

/-- The lexeme of a step is proper. -/
def Step.Proper : Step → Prop
  | .more l _ | .last l => Lexeme.Proper l

theorem token_proper {l : Lexer} {t : Token} {cs : List Char} {rest : CharStream}
    (h : ∀ x, t = .name x → ProperName x) : (l.token t cs rest).Proper := by
  rintro t' x ht hx
  cases ht
  exact h x hx

theorem failed_proper {l : Lexer} {count : Nat} {failure : ReadFailure} :
    (l.failed count failure).Proper := by
  rintro t' x ht
  cases ht

theorem wrong_proper {l : Lexer} {problem : LexProblem} {cs : List Char} {rest : CharStream} :
    (l.wrong problem cs rest).Proper := by
  rintro t' x ht
  cases ht

theorem tokenBefore_proper {l : Lexer} {t : Token} {cs : List Char} {rest : CharStream}
    (h : ∀ x, t = .name x → ProperName x) : (l.tokenBefore t cs rest).Proper := by
  unfold tokenBefore
  split
  · exact failed_proper
  · exact token_proper h

theorem wordToken_proper {word x : String} (h : wordToken word = .name x) : ProperName x := by
  unfold wordToken at h
  split at h
  next => cases h
  next hw =>
    cases h
    constructor
    · rintro rfl
      exact absurd hw (by decide)
    · rintro rfl
      exact absurd hw (by decide)

theorem lexemeAt_proper (l : Lexer) (c : Char) (s : CharStream) : (l.lexemeAt c s).Proper := by
  unfold lexemeAt
  split
  · exact token_proper (by simp)
  split
  · split
    · exact token_proper (by simp)
    · exact tokenBefore_proper (by simp)
  split
  · unfold text
    dsimp only
    split
    · exact wrong_proper
    · exact failed_proper
    · exact token_proper (by simp)
  split
  · unfold number
    dsimp only
    split
    · exact failed_proper
    · split
      · exact tokenBefore_proper (by simp)
      · exact token_proper (by simp)
    · exact tokenBefore_proper (by simp)
  split
  · exact tokenBefore_proper fun x => wordToken_proper
  · exact wrong_proper

theorem step_proper (l : Lexer) : l.step.Proper := by
  unfold step
  dsimp only
  split
  · rintro t x ht hx
    cases ht
    cases hx
  · exact failed_proper
  · exact failed_proper
  · exact lexemeAt_proper _ _ _

theorem lexemes_proper : ∀ (n : Nat) (l : Lexer), ∀ x ∈ lexemes n l, Lexeme.Proper x
  | 0, _ => by simp [lexemes]
  | n + 1, l => by
    intro x hx
    have hstep := step_proper l
    rw [lexemes] at hx
    cases hs : l.step with
    | last lexeme =>
      rw [hs] at hx hstep
      rw [List.mem_singleton.mp hx]
      exact hstep
    | more lexeme next =>
      rw [hs] at hx hstep
      rcases List.mem_cons.mp hx with rfl | hx
      · exact hstep
      · exact lexemes_proper n next x hx

end Lexer

namespace Parse

open Grammar ClassScript.Parser

/-- Statements that were read without an error have different identities, and each is a declaration
of tokens among those read. -/
theorem statements_read {f : Nat} : ∀ (n : Nat) (c : Cursor), (statements f n c).errors = [] →
    Fresh c.nextId (statements f n c).nextId (Stmt.idsOf (statements f n c).trees) ∧
      ∀ s ∈ (statements f n c).trees, ∃ w q, Sentence .declaration w q ∧ s.bare = q.stmt ∧
        ∀ t ∈ w, ∃ p, .ok p ∈ c.rest ∧ p.token = t
  | 0, c, _ => ⟨.nil (Nat.le_refl _), by simp [statements, trees]⟩
  | n + 1, c, he => by
    revert he
    unfold statements
    dsimp only
    split
    next => exact fun _ => ⟨.nil (Nat.le_refl _), by simp [trees]⟩
    next => intro he; simp [errors] at he
    next t rest hc =>
      split
      next => exact fun _ => ⟨.nil (Nat.le_refl _), by simp [trees]⟩
      next hend =>
        split
        next s c' hs =>
          intro he
          have he' : (statements f n c').errors = [] := by simpa [errors] using he
          obtain ⟨w, q, hm, hd, hq, -⟩ := declaration_reads f hs
          obtain ⟨hfresh, hall⟩ := statements_read n c' he'
          obtain ⟨used, hrest, rfl⟩ := hm.rest
          have hc' : c.rest = used.map .ok ++ c'.rest := hrest
          refine ⟨by simpa [trees] using hm.ids.append hfresh, fun s' hs' => ?_⟩
          have hmem : s' = s ∨ s' ∈ (statements f n c').trees := by simpa [trees] using hs'
          rcases hmem with rfl | hmem
          · refine ⟨_, q, hd, hq, fun t ht => ?_⟩
            obtain ⟨p, hp, rfl⟩ := List.mem_map.mp ht
            exact ⟨p, hc' ▸ List.mem_append_left _ (List.mem_map_of_mem hp), rfl⟩
          · obtain ⟨w', q', hd', hq', hw'⟩ := hall s' hmem
            refine ⟨w', q', hd', hq', fun t ht => ?_⟩
            obtain ⟨p, hp, rfl⟩ := hw' t ht
            exact ⟨p, hc' ▸ List.mem_append_right _ hp, rfl⟩
        next => intro he; simp [errors] at he
        next => exact fun _ => ⟨.nil (Nat.le_refl _), by simp [trees]⟩

end Parse

/-- **The tree of a text is proper, and its identities are new.** -/
theorem CharStream.parse_proper {firstId : Nat} {text : CharStream} {body : List Stmt}
    (h : (text.parse firstId).program = .ok body) :
    Stmt.ProperAll body ∧ Fresh firstId (text.parse firstId).nextId (Stmt.idsOf body) := by
  unfold Parse.program at h
  split at h
  next he =>
    cases h
    obtain ⟨hfresh, hall⟩ := Parse.statements_read _ _ (List.isEmpty_iff.mp he)
    refine ⟨(Stmt.properAll_iff _).mpr fun s hs => ?_, hfresh⟩
    obtain ⟨w, q, hd, hq, hw⟩ := hall s hs
    rw [← Stmt.proper_bare, hq]
    refine (hd.proper fun x hx => ?_).1
    obtain ⟨p, hp, ht⟩ := hw _ hx
    exact Lexer.lexemes_proper _ _ _ hp p x rfl ht
  next => cases h

end ClassScript
