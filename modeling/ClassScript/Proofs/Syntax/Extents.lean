/-
# The texts of the nodes of a tree

`Spans ts n` says that the node `n` and all nodes below it are written with the tokens `ts`, and
that the span of each one of them is its text: from the start of its first token to the end of its
last one. The nodes below a node then lie inside it, one behind the other (`Nested`).

How a node is written is what the grammar says: its own tokens and the nodes below it in order
(`exprParts`, `stmtParts`). Only a `for` statement is not written as the nodes that it is made of
(`Written.forLoop`). Its loop has the span of the whole statement, as has the block around it if
there is an initializer. With an increment, the body of the loop is a block with the span of the
body, and the statement in it that is the increment has the span of that expression. Where there is
no condition, it is a constant in the place of the semicolon.

Tokens stand in line, one behind the other (`InLine`). That is why the smallest span that covers the
first and the last of a node's tokens or of the nodes below it is its text (`Bounds.join`).

Key definitions: `Spans`, `Covers`, `Written`.
Key theorems: `Bounds.join`, `Covers.nested`.
-/
import ClassScript.Syntax.Tree

namespace ClassScript
namespace Extent

/-- A node of a tree. -/
inductive Node where
  | expr (e : Expr)
  | stmt (s : Stmt)

def Node.span : Node → Span
  | .expr e => e.span
  | .stmt s => s.span

/-- A piece that a node is written with. -/
inductive Part where
  | token (t : Token)
  /-- A token of which the tree keeps the place. -/
  | placed (t : Token) (place : Span)
  | child (n : Node)

namespace Part

def symbol (s : Symbol) : Part := .token (.symbol s)

def expr (e : Expr) : Part := .child (.expr e)

def stmt (s : Stmt) : Part := .child (.stmt s)

/-- A name where it is declared. -/
def declared (d : Declared) : Part := .placed (.name d.name) d.span

/-- Pieces with commas between them. -/
def commas (ps : List Part) : List Part := ps.intersperse (.symbol .comma)

/-- A piece that may be missing, behind a symbol. -/
def behind (s : Symbol) : Option Part → List Part
  | none => []
  | some p => [.symbol s, p]

def childSpan : Part → Option Span
  | .child n => some n.span
  | _ => none

end Part

/-- The token that a constant is. -/
def literalToken : Literal → Token
  | .nil => .symbol .nilWord
  | .bool true => .symbol .trueWord
  | .bool false => .symbol .falseWord
  | .number x => .number x
  | .text s => .text s

/-- How an expression is written. -/
def exprParts : Expr → List Part
  | .literal _ v => [.token (literalToken v)]
  | .group _ e => [.symbol .openParen, .expr e, .symbol .closeParen]
  | .variable _ x => [.token (.name x)]
  | .assign _ x value => [.token (.name x), .symbol .equal, .expr value]
  | .unary _ op e => [.symbol op.symbol, .expr e]
  | .binary _ op left right => [.expr left, .symbol op.symbol, .expr right]
  | .logical _ op left right => [.expr left, .symbol op.symbol, .expr right]
  | .call _ callee args =>
    [.expr callee, .symbol .openParen] ++ Part.commas (args.map .expr) ++ [.symbol .closeParen]
  | .get _ object x => [.expr object, .symbol .dot, .token (.name x)]
  | .set _ object x value =>
    [.expr object, .symbol .dot, .token (.name x), .symbol .equal, .expr value]
  | .this _ => [.symbol .thisWord]
  | .super _ x => [.symbol .superWord, .symbol .dot, .token (.name x)]

def blockParts (body : List Stmt) : List Part :=
  [.symbol .openBrace] ++ body.map .stmt ++ [.symbol .closeBrace]

/-- How a function or a method is written, from its name on. -/
def functionParts : FunctionDecl → List Part
  | .mk d params body =>
    [.declared d, .symbol .openParen] ++ Part.commas (params.map .declared) ++
      [.symbol .closeParen] ++ blockParts body

/-- How a statement is written that is not made out of others. -/
def stmtParts : Stmt → List Part
  | .expression _ e => [.expr e, .symbol .semicolon]
  | .print _ e => [.symbol .printWord, .expr e, .symbol .semicolon]
  | .var _ x init =>
    [.symbol .varWord, .token (.name x)] ++ Part.behind .equal (init.map .expr) ++
      [.symbol .semicolon]
  | .block _ body => blockParts body
  | .branch _ condition yes no =>
    [.symbol .ifWord, .symbol .openParen, .expr condition, .symbol .closeParen, .stmt yes] ++
      Part.behind .elseWord (no.map .stmt)
  | .loop _ condition body =>
    [.symbol .whileWord, .symbol .openParen, .expr condition, .symbol .closeParen, .stmt body]
  | .function _ d => [.symbol .funWord] ++ functionParts d
  | .return _ value => [.symbol .returnWord] ++ (value.map .expr).toList ++ [.symbol .semicolon]
  | .classDecl _ d parent methods =>
    [.symbol .classWord, .declared d] ++ Part.behind .less (parent.map (.expr ·.expr)) ++
      [.symbol .openBrace] ++ methods.flatMap functionParts ++ [.symbol .closeBrace]

/-- How the beginning of a `for` statement is written, up to its first semicolon. -/
def openingParts : Option Stmt → List Part
  | none => [.symbol .semicolon]
  | some init => [.stmt init]

/-- What the initializer of a `for` statement makes of its loop. The block around the two has the
span of the loop. -/
inductive Begun : Option Stmt → Stmt → Stmt → Prop
  | bare (loop : Stmt) : Begun none loop loop
  | init (init loop : Stmt) : Begun (some init) loop (.block loop.span [init, loop])

/-- What the condition of a `for` statement is, and how it is written. A missing one is the constant
`true` with the span of the semicolon. -/
inductive Conditional : Option Expr → Expr → List Part → Prop
  | always (m : Mark) : Conditional none (.literal m (.bool true))
      [.placed (.symbol .semicolon) m.span]
  | given (e : Expr) : Conditional (some e) e [.expr e, .symbol .semicolon]

/-- What the increment of a `for` statement makes of its body. The block around the two has the span
of the body, and the statement that the increment becomes has the span of the expression. -/
inductive Round : Option Expr → Stmt → Stmt → Prop
  | bare (body : Stmt) : Round none body body
  | step (e : Expr) (body : Stmt) :
      Round (some e) body (.block body.span [body, .expression e.span e])

/-- How a node is written. The loop of a `for` statement has the span of the whole statement. -/
inductive Written : Node → List Part → Prop
  | expr (e : Expr) : Written (.expr e) (exprParts e)
  | stmt (s : Stmt) : Written (.stmt s) (stmtParts s)
  | forLoop {init : Option Stmt} {given increment : Option Expr} {condition : Expr}
      {body round s : Stmt} {test : List Part} :
      Conditional given condition test → Round increment body round →
      Begun init (.loop s.span condition round) s →
      Written (.stmt s) ([.symbol .forWord, .symbol .openParen] ++ openingParts init ++ test ++
        (increment.map .expr).toList ++ [.symbol .closeParen, .stmt body])

/-- The span goes from the start of the first of the tokens to the end of the last one. -/
def Bounds (s : Span) (ts : List PlacedToken) : Prop :=
  ∃ first last, ts.head? = some first ∧ ts.getLast? = some last ∧
    s = ⟨first.span.start, last.span.stop⟩

/-- The nodes among the pieces lie inside the span, one behind the other. -/
structure Nested (s : Span) (ps : List Part) : Prop where
  inside : ∀ t ∈ ps.filterMap Part.childSpan, s.start ≤ t.start ∧ t.stop ≤ s.stop
  apart : (ps.filterMap Part.childSpan).Pairwise (·.stop ≤ ·.start)

mutual

/-- The node and all nodes below it are written with the tokens, and the span of each of them is its
text. -/
inductive Spans : List PlacedToken → Node → Prop
  | node {n : Node} {ps : List Part} {ts : List PlacedToken} : Written n ps → Covers ts ps →
      Bounds n.span ts → Nested n.span ps → Spans ts n

/-- The tokens are those of the pieces, one piece after the other. -/
inductive Covers : List PlacedToken → List Part → Prop
  | nil : Covers [] []
  | token {t : PlacedToken} {ts : List PlacedToken} {ps : List Part} : Covers ts ps →
      Covers (t :: ts) (.token t.token :: ps)
  | placed {t : PlacedToken} {ts : List PlacedToken} {ps : List Part} : Covers ts ps →
      Covers (t :: ts) (.placed t.token t.span :: ps)
  | child {n : Node} {us ts : List PlacedToken} {ps : List Part} : Spans us n → Covers ts ps →
      Covers (us ++ ts) (.child n :: ps)

end

/-- A `for` statement is written as one. -/
theorem written_forLoop {span : Span} {init : Option Stmt} {given increment : Option Expr}
    {condition : Expr} {body : Stmt} {test : List Part} (h : Conditional given condition test) :
    Written (.stmt (.forLoop span init condition increment body))
      ([.symbol .forWord, .symbol .openParen] ++ openingParts init ++ test ++
        (increment.map .expr).toList ++ [.symbol .closeParen, .stmt body]) := by
  have hround : ∃ round, Round increment body round ∧
      Stmt.forLoop span none condition increment body = .loop span condition round := by
    cases increment with
    | none => exact ⟨_, .bare body, rfl⟩
    | some e => exact ⟨_, .step e body, rfl⟩
  obtain ⟨round, hround, hloop⟩ := hround
  cases init with
  | none =>
    rw [hloop]
    exact .forLoop h hround (.bare _)
  | some init =>
    have hbegun : Stmt.forLoop span (some init) condition increment body =
        .block span [init, .loop span condition round] := by
      rw [← hloop]
      rfl
    rw [hbegun]
    exact .forLoop h hround (.init init _)

theorem span_forLoop (span : Span) (init : Option Stmt) (condition : Expr) (increment : Option Expr)
    (body : Stmt) : (Stmt.forLoop span init condition increment body).span = span := by
  cases init <;> rfl

/-! ### Tokens in line -/

/-- The tokens stand one behind the other. -/
structure InLine (ts : List PlacedToken) : Prop where
  forward : ∀ t ∈ ts, t.span.start ≤ t.span.stop
  apart : ts.Pairwise (·.span.stop ≤ ·.span.start)

variable {s t : Span} {ts us vs : List PlacedToken} {ps qs : List Part} {n : Node}

theorem InLine.sublist (h : InLine ts) (hu : us.Sublist ts) : InLine us :=
  ⟨fun t ht => h.forward t (hu.subset ht), h.apart.sublist hu⟩

theorem InLine.head_le {first t : PlacedToken} (h : InLine ts) (hfirst : ts.head? = some first)
    (ht : t ∈ ts) : first.span.start ≤ t.span.start := by
  obtain ⟨us, rfl⟩ := List.head?_eq_some_iff.mp hfirst
  rcases List.mem_cons.mp ht with rfl | ht
  · exact Nat.le_refl _
  · exact Nat.le_trans (h.forward first (by simp)) (List.rel_of_pairwise_cons h.apart ht)

theorem InLine.le_getLast {last t : PlacedToken} (h : InLine ts) (hlast : ts.getLast? = some last)
    (ht : t ∈ ts) : t.span.stop ≤ last.span.stop := by
  obtain ⟨us, rfl⟩ := List.getLast?_eq_some_iff.mp hlast
  rcases List.mem_append.mp ht with ht | ht
  · have hle := (List.pairwise_append.mp h.apart).2.2 t ht last (by simp)
    exact Nat.le_trans hle (h.forward last (by simp))
  · obtain rfl := List.mem_singleton.mp ht
    exact Nat.le_refl _

theorem Bounds.start_mem (h : Bounds s ts) : ∃ t ∈ ts, s.start = t.span.start := by
  obtain ⟨first, last, hfirst, hlast, rfl⟩ := h
  exact ⟨first, List.mem_of_head? hfirst, rfl⟩

theorem Bounds.stop_mem (h : Bounds s ts) : ∃ t ∈ ts, s.stop = t.span.stop := by
  obtain ⟨first, last, hfirst, hlast, rfl⟩ := h
  exact ⟨last, List.mem_of_getLast? hlast, rfl⟩

theorem Bounds.singleton (t : PlacedToken) : Bounds t.span [t] := ⟨t, t, rfl, rfl, rfl⟩

/-- **The smallest span that covers a first and a last piece of a stretch of tokens is that of the
stretch.** -/
theorem Bounds.join (h : InLine ts) (hs : Bounds s us) (hus : us <+: ts) (ht : Bounds t vs)
    (hvs : vs <:+ ts) : Bounds (s.join t) ts := by
  obtain ⟨b, hb, hstop⟩ := hs.stop_mem
  obtain ⟨c, hc, hstart⟩ := ht.start_mem
  obtain ⟨first, _, hfirst, _, rfl⟩ := hs
  obtain ⟨_, last, _, hlast, rfl⟩ := ht
  have hhead : ts.head? = some first := by
    obtain ⟨more, rfl⟩ := hus
    rw [List.head?_append, hfirst, Option.some_or]
  have hend : ts.getLast? = some last := by
    obtain ⟨more, rfl⟩ := hvs
    rw [List.getLast?_append, hlast, Option.some_or]
  have hleft := h.head_le hhead (hvs.subset hc)
  have hright := h.le_getLast hend (hus.subset hb)
  refine ⟨first, last, hhead, hend, ?_⟩
  simp only at hstop hstart
  simp only [Span.join, Span.mk.injEq]
  omega

/-! ### Pieces of a text -/

theorem Spans.bounds (h : Spans ts n) : Bounds n.span ts := by
  cases h
  assumption

namespace Covers

theorem append (h : Covers ts ps) (h' : Covers us qs) : Covers (ts ++ us) (ps ++ qs) := by
  induction ps generalizing ts with
  | nil =>
    cases h
    exact h'
  | cons p ps ih =>
    cases h with
    | token h => exact .token (ih h)
    | placed h => exact .placed (ih h)
    | child hn h =>
      rw [List.append_assoc]
      exact .child hn (ih h)

theorem singleton (h : Spans ts n) : Covers ts [.child n] := by
  simpa using Covers.child h .nil

theorem spans (h : Covers ts [.child n]) : Spans ts n := by
  cases h with
  | child hn h =>
    cases h
    simpa using hn

theorem ne_nil {x : Token} (h : Covers ts (.token x :: ps)) : ts ≠ [] := by
  cases h
  simp

/-- A node among the pieces is written with some of the tokens. -/
theorem bounds_of_mem (h : Covers ts ps) (hs : s ∈ ps.filterMap Part.childSpan) :
    ∃ us, us.Sublist ts ∧ Bounds s us := by
  induction ps generalizing ts with
  | nil => simp at hs
  | cons p ps ih =>
    cases h with
    | token h | placed h =>
      obtain ⟨us, hus, hb⟩ := ih h hs
      exact ⟨us, hus.cons _, hb⟩
    | @child n us ts _ hn h =>
      rcases List.mem_cons.mp hs with rfl | hs
      · exact ⟨us, List.sublist_append_left .., hn.bounds⟩
      · obtain ⟨vs, hvs, hb⟩ := ih h hs
        exact ⟨vs, hvs.trans (List.sublist_append_right ..), hb⟩

/-- The nodes among the pieces stand one behind the other. -/
theorem apart (h : Covers ts ps) (hline : InLine ts) :
    (ps.filterMap Part.childSpan).Pairwise (·.stop ≤ ·.start) := by
  induction ps generalizing ts with
  | nil => exact .nil
  | cons p ps ih =>
    cases h with
    | token h | placed h => exact ih h (hline.sublist (List.sublist_cons_self ..))
    | @child n us ts _ hn h =>
      refine List.pairwise_cons.mpr ⟨fun s hs => ?_,
        ih h (hline.sublist (List.sublist_append_right ..))⟩
      obtain ⟨vs, hvs, hb⟩ := h.bounds_of_mem hs
      obtain ⟨first, hfirst, hstart⟩ := hb.start_mem
      obtain ⟨last, hlast, hstop⟩ := hn.bounds.stop_mem
      rw [hstart, hstop]
      exact (List.pairwise_append.mp hline.apart).2.2 last hlast first (hvs.subset hfirst)

/-- **The nodes below a node lie inside its text, one behind the other.** -/
theorem nested (h : Covers ts ps) (hline : InLine ts) (hs : Bounds s ts) : Nested s ps := by
  refine ⟨fun t ht => ?_, h.apart hline⟩
  obtain ⟨us, hus, hb⟩ := h.bounds_of_mem ht
  obtain ⟨a, ha, hstart⟩ := hb.start_mem
  obtain ⟨b, hb, hstop⟩ := hb.stop_mem
  obtain ⟨first, last, hfirst, hlast, rfl⟩ := hs
  rw [hstart, hstop]
  exact ⟨hline.head_le hfirst (hus.subset ha), hline.le_getLast hlast (hus.subset hb)⟩

end Covers
end Extent
end ClassScript
