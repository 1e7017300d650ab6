/-
# Nodes lie in their text

The places of the nodes of a program are in the text that the program was parsed from. A node spans
the tokens that it is written with (`Extent.Spans`), and the tokens lie in the text. What a `for`
statement is made of has the places of its parts. So each node that the analysis comes to from the
program has its place in the text (`LiesIn`).

Key definition: `Scope.LiesIn`.
Key theorems: `Extent.Written.liesIn`, `program_read`, `program_liesIn`.
-/
import ClassScript.Proofs.Scope.Visit
import ClassScript.Proofs.Syntax.Coverage
import ClassScript.Proofs.Token.Truncation

namespace ClassScript

/-- The span ends at the index `n` or in front of it. -/
def Span.EndsBy (s : Span) (n : Nat) : Prop := s.start ≤ s.stop ∧ s.stop ≤ n

/-- The lexemes of a text lie in it. -/
theorem Tiles.endsBy {cs : List Char} {i : Nat} {ls : List Lexeme} (h : Tiles cs i ls) :
    ∀ l ∈ ls, l.span.EndsBy cs.length := by
  induction h with
  | last => simp [Lexeme.span, Span.EndsBy, Span.point]
  | lexeme _ hforward hstop _ _ _ ih =>
    exact List.forall_mem_cons.mpr ⟨⟨Nat.le_of_lt hforward, hstop⟩, ih⟩

namespace Scope

variable {n : Nat} {node : Node} {e : Expr} {s : Stmt}

/-- Where a node stands that is executed. -/
def Node.place? : Node → Option Span
  | .expr e => some e.span
  | .stmt s => some s.span
  | _ => none

/-- The node and all nodes that the analysis comes to from it stand in front of the index `n`. -/
def LiesIn (n : Nat) (node : Node) : Prop :=
  ∀ c x, Comes (c, node) x → ∀ s ∈ x.2.place?, s.EndsBy n

/-- All nodes of a list do. -/
def AllLieIn (n : Nat) (xs : List (Context × Node)) : Prop := ∀ x ∈ xs, LiesIn n x.2

theorem AllLieIn.nil : AllLieIn n [] := List.forall_mem_nil _

theorem AllLieIn.cons {c : Context} {xs : List (Context × Node)} (h : LiesIn n node)
    (hxs : AllLieIn n xs) : AllLieIn n ((c, node) :: xs) :=
  List.forall_mem_cons.mpr ⟨h, hxs⟩

namespace LiesIn

theorem of (hplace : ∀ s ∈ node.place?, s.EndsBy n) (h : ∀ c, AllLieIn n (Context.children c node)) :
    LiesIn n node := by
  intro c x hx
  rcases hx.cases_head with rfl | ⟨y, hy, hx⟩
  · exact hplace
  · exact h c y hy y.1 x hx

/-- A node without a place lies where those do that the analysis goes on to. -/
theorem unplaced (h : ∀ c, AllLieIn n (Context.children c node)) (hplace : node.place? = none) :
    LiesIn n node :=
  .of (by simp [hplace]) h

theorem span (h : LiesIn n (.expr e)) : e.span.EndsBy n := h {} _ .refl _ rfl

theorem stmtSpan (h : LiesIn n (.stmt s)) : s.span.EndsBy n := h {} _ .refl _ rfl

theorem exprs {es : List Expr} (h : ∀ e ∈ es, LiesIn n (.expr e)) : LiesIn n (.exprs es) := by
  induction es with
  | nil => exact .unplaced (fun _ => .nil) rfl
  | cons e es ih =>
    obtain ⟨he, hes⟩ := List.forall_mem_cons.mp h
    exact .unplaced (fun _ => .cons he (.cons (ih hes) .nil)) rfl

theorem stmts {ss : List Stmt} (h : ∀ s ∈ ss, LiesIn n (.stmt s)) : LiesIn n (.stmts ss) := by
  induction ss with
  | nil => exact .unplaced (fun _ => .nil) rfl
  | cons s ss ih =>
    obtain ⟨hs, hss⟩ := List.forall_mem_cons.mp h
    exact .unplaced (fun _ => .cons hs (.cons (ih hss) .nil)) rfl

theorem function {d : FunctionDecl} (h : ∀ s ∈ d.body, LiesIn n (.stmt s)) :
    LiesIn n (.function d) := by
  cases d with
  | mk name params body => exact .unplaced (fun _ => .cons (.stmts h) .nil) rfl

theorem methods {ds : List FunctionDecl} (h : ∀ d ∈ ds, ∀ s ∈ d.body, LiesIn n (.stmt s)) :
    LiesIn n (.methods ds) := by
  induction ds with
  | nil => exact .unplaced (fun _ => .nil) rfl
  | cons d ds ih =>
    obtain ⟨hd, hds⟩ := List.forall_mem_cons.mp h
    exact .unplaced (fun _ => .cons (.function hd) (.cons (ih hds) .nil)) rfl

end LiesIn
end Scope

namespace Extent

open Scope (LiesIn Context)

variable {n : Nat} {node : Node} {ps : List Part} {ts : List PlacedToken}

/-- The node that the analysis has a function for. -/
def Node.scope : Node → Scope.Node
  | .expr e => .expr e
  | .stmt s => .stmt s

/-- What a piece keeps the place of stands in front of the index `n`. -/
def Part.LiesIn (n : Nat) : Part → Prop
  | .token _ => True
  | .placed _ s => s.EndsBy n
  | .child node => Scope.LiesIn n node.scope

@[simp] theorem symbol_liesIn (s : Symbol) : (Part.symbol s).LiesIn n := trivial

@[simp] theorem partExpr_liesIn {e : Expr} : (Part.expr e).LiesIn n ↔ LiesIn n (.expr e) := Iff.rfl

@[simp] theorem partStmt_liesIn {s : Stmt} : (Part.stmt s).LiesIn n ↔ LiesIn n (.stmt s) := Iff.rfl

theorem mem_commas {p : Part} (h : p ∈ ps) : p ∈ Part.commas ps := by
  unfold Part.commas
  induction ps with
  | nil => cases h
  | cons q qs ih =>
    cases qs with
    | nil => exact h
    | cons r rs =>
      rw [List.intersperse_cons_cons]
      rcases List.mem_cons.mp h with rfl | h
      · exact .head _
      · exact .tail _ (.tail _ (ih h))

/-- **An expression lies in the text if its parts do.** -/
theorem expr_liesIn {e : Expr} (hspan : e.span.EndsBy n)
    (h : ∀ p ∈ exprParts e, p.LiesIn n) : LiesIn n (.expr e) := by
  refine .of (by simpa [Scope.Node.place?] using hspan) fun c => ?_
  cases e with
  | literal | «variable» | this | super => exact .nil
  | group _ e | assign _ _ e | unary _ _ e | get _ e _ =>
    exact .cons (h (.expr e) (by simp [exprParts])) .nil
  | binary _ _ l r | logical _ _ l r =>
    have hl := h (.expr l) (by simp [exprParts])
    have hr := h (.expr r) (by simp [exprParts])
    exact .cons hl (.cons hr .nil)
  | set _ e _ v =>
    have hv := h (.expr v) (by simp [exprParts])
    have he := h (.expr e) (by simp [exprParts])
    exact .cons hv (.cons he .nil)
  | call _ callee args =>
    have hcallee := h (.expr callee) (by simp [exprParts])
    have hargs : LiesIn n (.exprs args) := by
      refine .exprs fun a ha => h (.expr a) ?_
      have hmem := mem_commas (List.mem_map_of_mem (f := Part.expr) ha)
      simp [exprParts, hmem]
    exact .cons hcallee (.cons hargs .nil)

theorem mem_functionParts {d : FunctionDecl} {s : Stmt} (h : s ∈ d.body) :
    Part.stmt s ∈ functionParts d := by
  cases d with
  | mk name params body =>
    simp only [functionParts, blockParts, List.mem_append]
    exact .inr (.inl (.inr (List.mem_map_of_mem h)))

/-- **A statement lies in the text if its parts do.** -/
theorem stmt_liesIn {s : Stmt} (hspan : s.span.EndsBy n)
    (h : ∀ p ∈ stmtParts s, p.LiesIn n) : LiesIn n (.stmt s) := by
  refine .of (by simpa [Scope.Node.place?] using hspan) fun c => ?_
  cases s with
  | expression _ e | print _ e => exact .cons (h (.expr e) (by simp [stmtParts])) .nil
  | var _ y init =>
    cases init with
    | none => exact .nil
    | some e => exact .cons (h (.expr e) (by simp [stmtParts, Part.behind])) .nil
  | «return» _ value =>
    cases value with
    | none => exact .nil
    | some e => exact .cons (h (.expr e) (by simp [stmtParts])) .nil
  | block _ body =>
    refine .cons (.stmts fun s hs => h (.stmt s) ?_) .nil
    simp only [stmtParts, blockParts, List.mem_append]
    exact .inl (.inr (List.mem_map_of_mem hs))
  | branch _ e yes no =>
    have he := h (.expr e) (by simp [stmtParts])
    have hyes := h (.stmt yes) (by simp [stmtParts])
    cases no with
    | none => exact .cons he (.cons hyes .nil)
    | some no =>
      have hno := h (.stmt no) (by simp [stmtParts, Part.behind])
      exact .cons he (.cons hyes (.cons hno .nil))
  | loop _ e body =>
    have he := h (.expr e) (by simp [stmtParts])
    have hbody := h (.stmt body) (by simp [stmtParts])
    exact .cons he (.cons hbody .nil)
  | function _ d =>
    refine .cons (.function fun s hs => h (.stmt s) ?_) .nil
    exact List.mem_append_right _ (mem_functionParts hs)
  | classDecl _ name parent methods =>
    have hmethods : LiesIn n (.methods methods) := by
      refine .methods fun d hd s hs => h (.stmt s) ?_
      simp only [stmtParts, List.mem_append, List.mem_flatMap]
      exact .inl (.inr ⟨d, hd, mem_functionParts hs⟩)
    cases parent with
    | none => exact .cons hmethods .nil
    | some parent =>
      have hparent := h (.expr parent.expr) (by simp [stmtParts, Part.behind])
      exact .cons hparent (.cons hmethods .nil)

/-- **What a `for` statement is made of lies in the text if its parts do.** -/
theorem forLoop_liesIn {init : Option Stmt} {given increment : Option Expr} {condition : Expr}
    {body round s : Stmt} {test : List Part} (hcondition : Conditional given condition test)
    (hround : Round increment body round) (hbegun : Begun init (.loop s.span condition round) s)
    (hspan : s.span.EndsBy n) (htest : ∀ p ∈ test, p.LiesIn n)
    (hinit : ∀ s ∈ init, LiesIn n (.stmt s)) (hincrement : ∀ e ∈ increment, LiesIn n (.expr e))
    (hbody : LiesIn n (.stmt body)) : LiesIn n (.stmt s) := by
  have hc : LiesIn n (.expr condition) := by
    cases hcondition with
    | always m =>
      have hplaced : m.span.EndsBy n := htest _ (.head _)
      exact expr_liesIn hplaced (by simp [exprParts, Part.LiesIn])
    | given => exact htest _ (.head _)
  have hr : LiesIn n (.stmt round) := by
    cases hround with
    | bare => exact hbody
    | step e =>
      have he := hincrement e rfl
      have hlast : LiesIn n (.stmt (.expression e.span e)) :=
        stmt_liesIn he.span (by simp [stmtParts, he])
      exact stmt_liesIn hbody.stmtSpan (by simp [stmtParts, blockParts, hbody, hlast])
  generalize s.span = span at hbegun hspan
  have hloop : LiesIn n (.stmt (.loop span condition round)) :=
    stmt_liesIn hspan (by simp [stmtParts, hc, hr])
  cases hbegun with
  | bare => exact hloop
  | init first =>
    have hfirst := hinit first rfl
    exact stmt_liesIn hspan (by simp [stmtParts, blockParts, hfirst, hloop])

/-- **A node lies in the text if its parts do.** -/
theorem Written.liesIn (h : Written node ps) (hspan : node.span.EndsBy n)
    (hps : ∀ p ∈ ps, p.LiesIn n) : LiesIn n node.scope := by
  cases h with
  | expr e => exact expr_liesIn hspan hps
  | stmt s => exact stmt_liesIn hspan hps
  | forLoop hcondition hround hbegun =>
    simp only [List.mem_append, or_imp, forall_and] at hps
    obtain ⟨⟨⟨⟨-, hopening⟩, htest⟩, hincrement⟩, hbody⟩ := hps
    refine forLoop_liesIn hcondition hround hbegun hspan htest ?_ ?_ (hbody (.stmt _) (by simp))
    · rintro s ⟨⟩
      exact hopening (.stmt s) (.head _)
    · rintro e ⟨⟩
      exact hincrement (.expr e) (by simp)

/-- **What is written with tokens of a text lies in it.** -/
theorem Covers.liesIn {ts : List PlacedToken} (h : Covers ts ps) :
    InLine ts → (∀ t ∈ ts, t.span.stop ≤ n) → ∀ p ∈ ps, p.LiesIn n := by
  -- on the derivation, for a node and for a row of pieces at once; the tokens of each piece are a
  -- part of the line, so what is assumed of the line is handed on
  refine @Covers.rec
    (fun ts node _ => InLine ts → (∀ t ∈ ts, t.span.stop ≤ n) → LiesIn n node.scope)
    (fun ts ps _ => InLine ts → (∀ t ∈ ts, t.span.stop ≤ n) → ∀ p ∈ ps, p.LiesIn n)
    ?_ ?_ ?_ ?_ ?_ ts ps h
  · intro node ps ts hw _ hbounds _ ih hline hends
    refine hw.liesIn ⟨?_, ?_⟩ (ih hline hends)
    · obtain ⟨first, last, hfirst, hlast, heq⟩ := hbounds
      have hmem := List.mem_of_getLast? hlast
      have hle := hline.head_le hfirst hmem
      have hforward := hline.forward last hmem
      rw [heq]
      exact Nat.le_trans hle hforward
    · obtain ⟨t, ht, hstop⟩ := hbounds.stop_mem
      rw [hstop]
      exact hends t ht
  · intro _ _ p hp
    cases hp
  · intro t ts ps _ ih hline hends p hp
    rcases List.mem_cons.mp hp with rfl | hp
    · exact trivial
    · exact ih (hline.sublist (List.sublist_cons_self ..)) (fun t ht => hends t (.tail _ ht)) p hp
  · intro t ts ps _ ih hline hends p hp
    rcases List.mem_cons.mp hp with rfl | hp
    · exact ⟨hline.forward t (.head _), hends t (.head _)⟩
    · exact ih (hline.sublist (List.sublist_cons_self ..)) (fun t ht => hends t (.tail _ ht)) p hp
  · intro node us ts ps _ _ ihn ih hline hends p hp
    rcases List.mem_cons.mp hp with rfl | hp
    · exact ihn (hline.sublist (List.sublist_append_left ..)) fun t ht =>
        hends t (List.mem_append_left _ ht)
    · exact ih (hline.sublist (List.sublist_append_right ..))
        (fun t ht => hends t (List.mem_append_right _ ht)) p hp

end Extent

/-! ### Whole programs -/

variable {firstId : Nat} {stream : CharStream} {cs : List Char} {body : List Stmt}

/-- The lexemes of a program are tokens that cover its statements, up to the end of the input. -/
theorem program_covers (h : (stream.parse firstId).program = .ok body) :
    ∃ ts ls, stream.lexemes = ts.map .ok ++ ls ∧ endsAt ls 0 = true ∧ Extent.InLine ts ∧
      Extent.Covers ts (body.map .stmt) := by
  have horder : InOrder 0 stream.lexemes := Lexer.lexemes_inOrder _ ⟨stream, 0, 1⟩
  obtain ⟨ts, ls, hrest, hends, -, hcovers⟩ := (parseLexemes_iterates firstId _).lays ⟨0, horder⟩
    (Parse.results_of_program h)
  change stream.lexemes = ts.map .ok ++ ls at hrest
  exact ⟨ts, ls, hrest, hends, (hrest ▸ horder).inLine, hcovers⟩

/-- A stream can be read to its end, or up to a failure. -/
theorem CharStream.read_or_failed : ∀ s : CharStream,
    (∃ cs, s = ofList cs) ∨ ∃ cs failure after, s = ofList cs ++ .error failure :: after
  | [] => .inl ⟨[], rfl⟩
  | .error failure :: after => .inr ⟨[], failure, after, rfl⟩
  | .ok c :: rest => by
    rcases read_or_failed rest with ⟨cs, rfl⟩ | ⟨cs, failure, after, rfl⟩
    · exact .inl ⟨c :: cs, rfl⟩
    · exact .inr ⟨c :: cs, failure, after, rfl⟩

theorem CharStream.text_ofList (cs : List Char) : text (ofList cs) = .ok cs := by
  induction cs with
  | nil => rfl
  | cons c cs ih =>
    show (text (ofList cs)).map (c :: ·) = _
    rw [ih]
    rfl

/-- **A stream that is parsed without an error was read to its end.** The lexer stops at a failure,
and goes on behind all in front of it, so no token ends the input. -/
theorem program_read (h : (stream.parse firstId).program = .ok body) :
    ∃ cs, stream = CharStream.ofList cs := by
  rcases stream.read_or_failed with hread | ⟨cs, failure, after, rfl⟩
  · exact hread
  obtain ⟨ts, ls, hrest, hends, -, -⟩ := program_covers h
  obtain ⟨front, i, -, -, -, hall, -, hfails⟩ := Lexer.lexemes_decided ⟨[], 0, 1⟩ cs
  have hlexemes : (CharStream.ofList cs ++ .error failure :: after : CharStream).lexemes =
      front ++ [.error ⟨.unreadable failure, .point i⟩] := by
    refine hfails _ failure after ?_
    simp only [List.length_append, CharStream.length_ofList, List.length_cons]
    omega
  rw [hlexemes] at hrest
  exfalso
  cases ls with
  | nil =>
    rw [List.append_nil] at hrest
    have hmem : .error ⟨.unreadable failure, .point i⟩ ∈ ts.map (Except.ok (ε := LexError)) :=
      hrest ▸ List.mem_append_right _ (List.mem_singleton_self _)
    obtain ⟨t, -, ht⟩ := List.mem_map.mp hmem
    cases ht
  | cons l ls =>
    cases l with
    | error e => cases hends
    | ok stop =>
      have hmem : (.ok stop : Lexeme) ∈ front ++ [.error ⟨.unreadable failure, .point i⟩] :=
        hrest ▸ List.mem_append_right _ (.head _)
      rcases List.mem_append.mp hmem with hmem | hmem
      · exact (hall _ hmem).1 (Parser.isEnd_iff.mp hends)
      · cases List.mem_singleton.mp hmem

/-- **The nodes of a program lie in the text that it was parsed from.** -/
theorem program_liesIn (h : ((CharStream.ofList cs).parse firstId).program = .ok body) :
    ∀ s ∈ body, Scope.LiesIn cs.length (.stmt s) := by
  obtain ⟨ts, ls, hrest, -, hline, hcovers⟩ := program_covers h
  have hends : ∀ t ∈ ts, t.span.stop ≤ cs.length := by
    intro t ht
    have hmem : .ok t ∈ (CharStream.ofList cs).lexemes :=
      hrest ▸ List.mem_append_left _ (List.mem_map_of_mem ht)
    exact ((lexemes_tile cs).endsBy _ hmem).2
  exact fun s hs => hcovers.liesIn hline hends (.stmt s) (List.mem_map_of_mem hs)

end ClassScript
