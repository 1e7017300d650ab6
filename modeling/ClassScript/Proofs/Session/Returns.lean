/-
# Returns stay in their calls

A `return` unwinds statement by statement up to the call that it belongs to. Which `return` that
is can be read off the tree: a run of a statement returns if and only if it comes to a `return` of
the statement itself, one that stands in no function inside of it (`Raises`,
`exec_returned_iff`). A call runs the statements of its body up to the first such `return`, or to
the end, and nothing is left of it behind the call (`apply_done_iff`).

The analysis allows no `return` outside of functions, and none with a value in a method that sets
up an object (`Accepted.returns_allowed`). So no program is ever cut short by a `return`, and all
that returns from such a method is `nil`.

Key theorem: `return_stays_in_call`.
-/
import ClassScript.Proofs.Session.Pieces
import ClassScript.Proofs.Session.Mirror

namespace ClassScript

open Scope

/-! ### The returns of a statement -/

mutual

/-- The values of the `return`s of a statement, but for those in functions that it declares. -/
def Stmt.returns : Stmt → List (Option Expr)
  | .return _ value => [value]
  | .block _ body => Stmt.returnsOf body
  | .branch _ _ yes no => yes.returns ++ Stmt.optionalReturns no
  | .loop _ _ body => body.returns
  | .expression _ _ | .print _ _ | .var _ _ _ | .function _ _ | .classDecl _ _ _ _ => []

/-- The values of the `return`s of statements. -/
def Stmt.returnsOf : List Stmt → List (Option Expr)
  | [] => []
  | s :: ss => s.returns ++ Stmt.returnsOf ss

/-- The values of the `return`s of a statement that may be missing. -/
def Stmt.optionalReturns : Option Stmt → List (Option Expr)
  | none => []
  | some s => s.returns

end

/-- A `return` stands in a function, and has no value in a method that sets up an object. -/
def Scope.Context.Allows (c : Context) (value : Option Expr) : Prop :=
  c.function ≠ .none ∧ (c.function = .initializer → value = none)

section

variable {Δ : Depths} {c : Context}

theorem Scope.Accepted.allows_return {span : Span} {value : Option Expr}
    (ha : Accepted Δ c (.stmt (.return span value))) : c.Allows value := by
  refine ⟨fun hc => ha.no_return hc, fun hc => ?_⟩
  have herr := ha.errors
  rw [Context.visit, Analysis.stmt, hc] at herr
  have hreport := (Analysis.optionalExpr_touches c.kind _ value).errors_nil herr
  cases value with
  | none => rfl
  | some e => cases hreport

mutual

/-- **The analysis allows all returns of a program that passes it.** -/
theorem Scope.Accepted.returns_allowed : ∀ {s : Stmt} {c : Context}, Accepted Δ c (.stmt s) →
    ∀ value ∈ s.returns, c.Allows value
  | .return _ value, _, ha => by
    rintro _ (_ | ⟨_, ⟨⟩⟩)
    exact ha.allows_return
  | .block _ body, _, ha => (ha.child (.head _)).returnsOf_allowed
  | .branch _ _ yes none, _, ha => by
    intro value hvalue
    rw [Stmt.returns, Stmt.optionalReturns, List.append_nil] at hvalue
    exact (ha.child (.tail _ (.head _))).returns_allowed value hvalue
  | .branch _ _ yes (some no), _, ha => by
    intro value hvalue
    rw [Stmt.returns, Stmt.optionalReturns, List.mem_append] at hvalue
    rcases hvalue with hvalue | hvalue
    · exact (ha.child (.tail _ (.head _))).returns_allowed value hvalue
    · exact (ha.child (.tail _ (.tail _ (.head _)))).returns_allowed value hvalue
  | .loop _ _ body, _, ha => (ha.child (.tail _ (.head _))).returns_allowed
  | .expression _ _, _, _ | .print _ _, _, _ | .var _ _ _, _, _ | .function _ _, _, _
  | .classDecl _ _ _ _, _, _ => by
    intro value hvalue
    cases hvalue

theorem Scope.Accepted.returnsOf_allowed : ∀ {ss : List Stmt} {c : Context},
    Accepted Δ c (.stmts ss) → ∀ value ∈ Stmt.returnsOf ss, c.Allows value
  | [], _, _ => by
    intro value hvalue
    cases hvalue
  | s :: ss, _, ha => by
    intro value hvalue
    rw [Stmt.returnsOf, List.mem_append] at hvalue
    rcases hvalue with hvalue | hvalue
    · exact (ha.child (.head _)).returns_allowed value hvalue
    · exact (ha.child (.tail _ (.head _))).returnsOf_allowed value hvalue

end

end

/-! ### Runs that end with a result -/

namespace Run

variable {α β : Type} {r : Run α} {a : α} {m m' : Machine}

theorem bind_done_iff {g : α → Run β} {b : β} :
    (r >>= g) m = .done b m' ↔ ∃ a m₁, r m = .done a m₁ ∧ g a m₁ = .done b m' := by
  show Run.bind r g m = _ ↔ _
  unfold Run.bind
  cases r m <;> simp

@[simp] theorem pure_done_iff {b : α} : (pure a : Run α) m = .done b m' ↔ a = b ∧ m = m' :=
  Answer.done.injEq a m b m' ▸ Iff.rfl

theorem located_done_iff {span : Span} : r.located span m = .done a m' ↔ r m = .done a m' := by
  unfold Run.located
  cases r m <;> simp

theorem inFrame_done_iff {frame : Nat} : r.inFrame frame m = .done a m' ↔
    ∃ m₁, r { m with frame } = .done a m₁ ∧ m' = { m₁ with frame := m.frame } := by
  unfold Run.inFrame
  dsimp only
  cases r { m with frame } with
  | done b m₁ =>
    simp only [Answer.mapMachine, Answer.done.injEq]
    constructor
    · rintro ⟨rfl, rfl⟩
      exact ⟨m₁, ⟨rfl, rfl⟩, rfl⟩
    · rintro ⟨_, ⟨rfl, rfl⟩, rfl⟩
      exact ⟨rfl, rfl⟩
  | failed | broken | exhausted => simp [Answer.mapMachine]

end Run

/-- The machine in a new frame inside of the frame `env`, with the names of a table. -/
def Machine.inside (m : Machine) (env : Nat) (names : NameTable Value) : Machine :=
  { m with store := (m.store.newFrame (some env) names).2, frame := m.store.frames.size }

/-- Statements that are run one after the other, none of which returns. -/
inductive Passed (exec : Stmt → Run Flow) : List Stmt → Machine → Machine → Prop
  | nil (m : Machine) : Passed exec [] m m
  | cons {s : Stmt} {ss : List Stmt} {m m₁ m' : Machine} (first : exec s m = .done .next m₁)
    (rest : Passed exec ss m₁ m') : Passed exec (s :: ss) m m'

/-- Rounds of a loop, none of which returns. -/
inductive Turns (condition : Run Value) (body : Run Flow) : Nat → Machine → Machine → Prop
  | none (m : Machine) : Turns condition body 0 m m
  | turn {n : Nat} {v : Value} {m m₁ m₂ m' : Machine} (test : condition m = .done v m₁)
    (true : v.isTrue = true) (round : body m₁ = .done .next m₂)
    (rest : Turns condition body n m₂ m') : Turns condition body (n + 1) m m'

/-- From the machine `m`, a run of a statement comes to a `return` of its own, one that stands in no
function inside of it. Its expression is `e`, which has the value `v`. -/
inductive Raises : Nat → Stmt → Option Expr → Machine → Value → Machine → Prop
  | return {f : Nat} {span : Span} {e : Option Expr} {m m' : Machine} {v : Value}
    (value : Run.optional (eval f) e m = .done v m') : Raises (f + 1) (.return span e) e m v m'
  | block {f : Nat} {span : Span} {front rest : List Stmt} {s : Stmt} {e : Option Expr}
    {m m₁ m₂ : Machine} {v : Value} (passed : Passed (exec f) front (m.inside m.frame {}) m₁)
    (raises : Raises f s e m₁ v m₂) :
    Raises (f + 1) (.block span (front ++ s :: rest)) e m v { m₂ with frame := m.frame }
  | yes {f : Nat} {span : Span} {c : Expr} {yes : Stmt} {no : Option Stmt} {e : Option Expr}
    {m m₁ m' : Machine} {v w : Value} (test : eval f c m = .done w m₁) (true : w.isTrue = true)
    (raises : Raises f yes e m₁ v m') : Raises (f + 1) (.branch span c yes no) e m v m'
  | no {f : Nat} {span : Span} {c : Expr} {yes no : Stmt} {e : Option Expr} {m m₁ m' : Machine}
    {v w : Value} (test : eval f c m = .done w m₁) (false : w.isTrue = false)
    (raises : Raises f no e m₁ v m') : Raises (f + 1) (.branch span c yes (some no)) e m v m'
  | loop {f n : Nat} {span : Span} {c : Expr} {body : Stmt} {e : Option Expr}
    {m m₁ m₂ m' : Machine} {v w : Value} (limit : n < f)
    (turns : Turns (eval f c) (exec f body) n m m₁) (test : eval f c m₁ = .done w m₂)
    (true : w.isTrue = true) (raises : Raises f body e m₂ v m') :
    Raises (f + 1) (.loop span c body) e m v m'

/-- A run of statements comes to a `return` of one of them, and none of those in front returns. -/
def RaisesIn (f : Nat) (ss : List Stmt) (e : Option Expr) (m : Machine) (v : Value) (m' : Machine) :
    Prop :=
  ∃ front s rest m₁, ss = front ++ s :: rest ∧ Passed (exec f) front m m₁ ∧ Raises f s e m₁ v m'

section

variable {exec : Stmt → Run Flow} {m m' : Machine} {v : Value}

theorem sequence_next_iff : ∀ {ss : List Stmt} {m : Machine},
    Run.sequence exec ss m = .done .next m' ↔ Passed exec ss m m'
  | [], m => by
    rw [Run.sequence, Run.pure_done_iff]
    constructor
    · rintro ⟨-, rfl⟩
      exact .nil m
    · rintro ⟨⟩
      exact ⟨rfl, rfl⟩
  | s :: ss, m => by
    rw [Run.sequence, Run.bind_done_iff]
    constructor
    · rintro ⟨flow, m₁, hs, hrest⟩
      cases flow with
      | next => exact .cons hs (sequence_next_iff.mp hrest)
      | returned w => cases (Run.pure_done_iff.mp hrest).1
    · intro h
      cases h with
      | cons hs hrest => exact ⟨_, _, hs, sequence_next_iff.mpr hrest⟩

/-- Statements return where one of them does and none in front of it has. -/
theorem sequence_returned_iff : ∀ {ss : List Stmt} {m : Machine},
    Run.sequence exec ss m = .done (.returned v) m' ↔ ∃ front s rest m₁,
      ss = front ++ s :: rest ∧ Passed exec front m m₁ ∧ exec s m₁ = .done (.returned v) m'
  | [], m => by
    rw [Run.sequence, Run.pure_done_iff]
    constructor
    · rintro ⟨⟨⟩, -⟩
    · rintro ⟨front, s, rest, -, hss, -⟩
      simp at hss
  | s :: ss, m => by
    rw [Run.sequence, Run.bind_done_iff]
    constructor
    · rintro ⟨flow, m₁, hs, hrest⟩
      cases flow with
      | next =>
        obtain ⟨front, t, rest, m₂, rfl, hpassed, ht⟩ := sequence_returned_iff.mp hrest
        exact ⟨s :: front, t, rest, m₂, rfl, .cons hs hpassed, ht⟩
      | returned w =>
        obtain ⟨hw, rfl⟩ := Run.pure_done_iff.mp hrest
        cases hw
        exact ⟨[], s, ss, m, rfl, .nil m, hs⟩
    · rintro ⟨front, t, rest, m₁, hss, hpassed, ht⟩
      cases hpassed with
      | nil =>
        cases hss
        exact ⟨_, _, ht, rfl⟩
      | cons hs hpassed =>
        cases hss
        exact ⟨_, _, hs, sequence_returned_iff.mpr ⟨_, t, rest, m₁, rfl, hpassed, ht⟩⟩

/-- A loop returns where its body does, in a round that the limit allows. -/
theorem rounds_returned_iff {condition : Run Value} {body : Run Flow} : ∀ {limit : Nat} {m : Machine},
    Run.rounds condition body limit m = .done (.returned v) m' ↔
      ∃ n < limit, ∃ m₁ w m₂, Turns condition body n m m₁ ∧ condition m₁ = .done w m₂ ∧
        w.isTrue = true ∧ body m₂ = .done (.returned v) m'
  | 0, m => by
    constructor
    · intro h
      cases h
    · rintro ⟨n, hn, -⟩
      exact absurd hn (Nat.not_lt_zero n)
  | limit + 1, m => by
    rw [Run.rounds, Run.bind_done_iff]
    constructor
    · rintro ⟨w, m₁, htest, hrest⟩
      by_cases hw : w.isTrue = true
      · rw [if_pos hw, Run.bind_done_iff] at hrest
        obtain ⟨flow, m₂, hbody, hrest⟩ := hrest
        cases flow with
        | next =>
          obtain ⟨n, hn, m₃, w', m₄, hturns, hlast⟩ := rounds_returned_iff.mp hrest
          exact ⟨n + 1, Nat.succ_lt_succ hn, m₃, w', m₄, .turn htest hw hbody hturns, hlast⟩
        | returned u =>
          obtain ⟨hu, rfl⟩ := Run.pure_done_iff.mp hrest
          cases hu
          exact ⟨0, Nat.succ_pos limit, m, w, m₁, .none m, htest, hw, hbody⟩
      · rw [if_neg hw] at hrest
        cases (Run.pure_done_iff.mp hrest).1
    · rintro ⟨n, hn, m₁, w, m₂, hturns, htest, hw, hbody⟩
      cases hturns with
      | none =>
        refine ⟨w, m₂, htest, ?_⟩
        rw [if_pos hw, Run.bind_done_iff]
        exact ⟨_, _, hbody, rfl⟩
      | turn htest' hw' hbody' hturns =>
        refine ⟨_, _, htest', ?_⟩
        rw [if_pos hw', Run.bind_done_iff]
        exact ⟨_, _, hbody', rounds_returned_iff.mpr
          ⟨_, Nat.lt_of_succ_lt_succ hn, m₁, w, m₂, hturns, htest, hw, hbody⟩⟩

end

/-! ### Where a run returns -/

/-- The value that a call has whose body ends in a given way. -/
def Flow.value : Flow → Value
  | .next => .nil
  | .returned v => v

variable {f : Nat} {s : Stmt} {e : Option Expr} {m m' : Machine} {v : Value}

theorem Raises.returned (h : Raises f s e m v m') : exec f s m = .done (.returned v) m' := by
  induction h with
  | «return» hvalue =>
    simp only [exec, staged_eq, Run.stmtStep]
    rw [Run.located_done_iff, Run.bind_done_iff]
    exact ⟨_, _, hvalue, rfl⟩
  | @block f span front rest s e m m₁ m₂ v hpassed _ ih =>
    simp only [exec, staged_eq, Run.stmtStep]
    rw [Run.located_done_iff, Run.bind_done_iff]
    refine ⟨_, _, rfl, Run.bind_done_iff.mpr ⟨_, _, rfl, Run.inFrame_done_iff.mpr ⟨m₂, ?_, rfl⟩⟩⟩
    exact sequence_returned_iff.mpr ⟨front, s, rest, m₁, rfl, hpassed, ih⟩
  | yes htest hw _ ih =>
    simp only [exec, staged_eq, Run.stmtStep]
    rw [Run.located_done_iff, Run.bind_done_iff]
    refine ⟨_, _, htest, ?_⟩
    rw [if_pos hw]
    exact ih
  | no htest hw _ ih =>
    simp only [exec, staged_eq, Run.stmtStep]
    rw [Run.located_done_iff, Run.bind_done_iff]
    refine ⟨_, _, htest, ?_⟩
    rw [if_neg (by simp [hw])]
    exact ih
  | loop hlimit hturns htest hw _ ih =>
    simp only [exec, staged_eq, Run.stmtStep]
    rw [Run.located_done_iff, rounds_returned_iff]
    exact ⟨_, hlimit, _, _, _, hturns, htest, hw, ih⟩

/-- **A statement returns if and only if its run comes to a `return` of its own.** -/
theorem exec_returned_iff (f : Nat) (s : Stmt) (m : Machine) (v : Value) (m' : Machine) :
    exec f s m = .done (.returned v) m' ↔ ∃ e, Raises f s e m v m' := by
  refine ⟨fun h => ?_, fun ⟨e, h⟩ => h.returned⟩
  induction f generalizing s m v m' with
  | zero => cases h
  | succ f ih =>
    simp only [exec, staged_eq, Run.stmtStep] at h
    rw [Run.located_done_iff] at h
    cases s with
    | expression _ e =>
      obtain ⟨_, _, -, h⟩ := Run.bind_done_iff.mp h
      cases h
    | print _ e | var _ _ e | classDecl =>
      obtain ⟨_, _, -, h⟩ := Run.bind_done_iff.mp h
      obtain ⟨_, _, -, h⟩ := Run.bind_done_iff.mp h
      cases h
    | function =>
      obtain ⟨_, _, -, h⟩ := Run.bind_done_iff.mp h
      obtain ⟨_, _, -, h⟩ := Run.bind_done_iff.mp h
      obtain ⟨_, _, -, h⟩ := Run.bind_done_iff.mp h
      cases h
    | «return» _ e =>
      obtain ⟨_, _, hvalue, h⟩ := Run.bind_done_iff.mp h
      cases h
      exact ⟨e, .return hvalue⟩
    | block _ body =>
      obtain ⟨_, _, houter, h⟩ := Run.bind_done_iff.mp h
      cases houter
      obtain ⟨_, _, hframe, h⟩ := Run.bind_done_iff.mp h
      cases hframe
      obtain ⟨m₂, hbody, rfl⟩ := Run.inFrame_done_iff.mp h
      obtain ⟨front, t, rest, m₁, rfl, hpassed, ht⟩ := sequence_returned_iff.mp hbody
      obtain ⟨e, hraises⟩ := ih _ _ _ _ ht
      exact ⟨e, .block hpassed hraises⟩
    | branch _ c yes no =>
      obtain ⟨w, m₁, htest, h⟩ := Run.bind_done_iff.mp h
      by_cases hw : w.isTrue = true
      · rw [if_pos hw] at h
        obtain ⟨e, hraises⟩ := ih _ _ _ _ h
        exact ⟨e, .yes htest hw hraises⟩
      · rw [if_neg hw] at h
        cases no with
        | none => cases h
        | some no =>
          obtain ⟨e, hraises⟩ := ih _ _ _ _ h
          exact ⟨e, .no htest (by simpa using hw) hraises⟩
    | loop _ c body =>
      obtain ⟨n, hn, m₁, w, m₂, hturns, htest, hw, hbody⟩ := rounds_returned_iff.mp h
      obtain ⟨e, hraises⟩ := ih _ _ _ _ hbody
      exact ⟨e, .loop hn hturns htest hw hraises⟩

theorem sequence_raises_iff {ss : List Stmt} :
    Run.sequence (exec f) ss m = .done (.returned v) m' ↔ ∃ e, RaisesIn f ss e m v m' := by
  rw [sequence_returned_iff]
  constructor
  · rintro ⟨front, s, rest, m₁, hss, hpassed, hs⟩
    obtain ⟨e, hraises⟩ := (exec_returned_iff f s m₁ v m').mp hs
    exact ⟨e, front, s, rest, m₁, hss, hpassed, hraises⟩
  · rintro ⟨e, front, s, rest, m₁, hss, hpassed, hraises⟩
    exact ⟨front, s, rest, m₁, hss, hpassed, hraises.returned⟩

theorem mem_returnsOf {value : Option Expr} {ss : List Stmt} (hs : s ∈ ss)
    (h : value ∈ s.returns) : value ∈ Stmt.returnsOf ss := by
  induction ss with
  | nil => cases hs
  | cons t ts ih =>
    rw [Stmt.returnsOf, List.mem_append]
    rcases List.mem_cons.mp hs with rfl | hs
    · exact .inl h
    · exact .inr (ih hs)

/-- What a run comes to is a `return` of the statement, and its value is that of the expression. -/
theorem Raises.mem_returns (h : Raises f s e m v m') :
    e ∈ s.returns ∧ ∃ g m₁ m₂, Run.optional (eval g) e m₁ = .done v m₂ := by
  induction h with
  | «return» hvalue => exact ⟨List.mem_singleton.mpr rfl, _, _, _, hvalue⟩
  | block _ _ ih => exact ⟨mem_returnsOf (by simp) ih.1, ih.2⟩
  | yes _ _ _ ih => exact ⟨List.mem_append_left _ ih.1, ih.2⟩
  | no _ _ _ ih => exact ⟨List.mem_append_right _ ih.1, ih.2⟩
  | loop _ _ _ _ _ ih => exact ih

/-! ### Calls and programs -/

/-- **A call takes the `return` that its own body comes to, and no other.** The body is run up to
there, or to its end, in a new frame that holds the parameters. A method that sets up an object
gives that object all the same. -/
theorem apply_done_iff (f : Nat) (c : Closure) (args : List Value) (m : Machine) (v : Value)
    (m' : Machine) : Run.apply (exec f) c args m = .done v m' ↔
      ∃ w m₁, ((∃ e, RaisesIn f c.decl.body e (m.inside c.env (Run.parameters c args)) w m₁) ∨
          (w = .nil ∧ Passed (exec f) c.decl.body (m.inside c.env (Run.parameters c args)) m₁)) ∧
        m' = { m₁ with frame := m.frame } ∧
        if c.isInit then m₁.store.getAt c.env 0 thisName = .ok v else v = w := by
  rw [Run.apply, Run.bind_done_iff]
  constructor
  · rintro ⟨frame, m₀, hnew, h⟩
    cases hnew
    obtain ⟨flow, m₂, hframe, hlast⟩ := Run.bind_done_iff.mp h
    obtain ⟨m₁, hbody, rfl⟩ := Run.inFrame_done_iff.mp hframe
    have hgives : (if c.isInit then m₁.store.getAt c.env 0 thisName = .ok v else v = flow.value) ∧
        m' = { m₁ with frame := m.frame } := by
      by_cases hinit : c.isInit = true
      · simp only [hinit, ↓reduceIte] at hlast ⊢
        split at hlast
        next u hthis =>
          cases hlast
          exact ⟨hthis, rfl⟩
        next => cases hlast
      · simp only [hinit, Bool.false_eq_true, ↓reduceIte] at hlast ⊢
        cases flow with
        | next | returned =>
          cases hlast
          exact ⟨rfl, rfl⟩
    refine ⟨flow.value, m₁, ?_, hgives.2, hgives.1⟩
    cases flow with
    | next => exact .inr ⟨rfl, sequence_next_iff.mp hbody⟩
    | returned w => exact .inl (sequence_raises_iff.mp hbody)
  · rintro ⟨w, m₁, hbody, rfl, hgives⟩
    obtain ⟨flow, hflow, hbody⟩ : ∃ flow : Flow, flow.value = w ∧
        Run.sequence (exec f) c.decl.body (m.inside c.env (Run.parameters c args)) =
          .done flow m₁ := by
      rcases hbody with hraises | ⟨rfl, hpassed⟩
      · exact ⟨.returned w, rfl, sequence_raises_iff.mpr hraises⟩
      · exact ⟨.next, rfl, sequence_next_iff.mpr hpassed⟩
    refine ⟨_, _, rfl, Run.bind_done_iff.mpr ⟨flow, _, Run.inFrame_done_iff.mpr ⟨m₁, hbody, rfl⟩, ?_⟩⟩
    by_cases hinit : c.isInit = true
    · simp only [hinit, ↓reduceIte] at hgives ⊢
      rw [hgives]
    · simp only [hinit, Bool.false_eq_true, ↓reduceIte] at hgives ⊢
      rw [hgives, ← hflow]
      cases flow with
      | next | returned => rfl

/-- The analysis comes to the body of each method that sets up an object as to one. -/
theorem initializer_visited {body : List Stmt} : ∀ {decls : List FunctionDecl} {c : Context},
    Visits body c (.methods decls) → ∀ d ∈ decls, d.name = initName →
    ∃ c', Visits body c' (.stmts d.body) ∧ c'.function = .initializer
  | [], _, _, _, hd => by cases hd
  | d :: ds, c, hv, d', hd => by
    intro hname
    rcases List.mem_cons.mp hd with rfl | hd
    · exact ⟨_, (hv.child (.head _)).child (Lexical.body_child _ _), if_pos hname⟩
    · exact initializer_visited (hv.child (.tail _ (.head _))) d' hd hname

/-- **Returns stay in their calls.** No statement of a program returns from it: a run of the program
that ends without an error has run all its statements, one after the other, and in a session that
can be reached it ends in no other way. A statement returns if and only if its run comes to a
`return` of its own, so one is in the statement, outside of the functions in it. A call takes the
`return` that its own body comes to, and no other; and in a method that sets up an object there is
no `return` with a value, so all that returns is `nil`. -/
theorem return_stays_in_call {text : CharStream} {firstId : Nat} {p : Program}
    (hp : Program.ofParse (text.parse firstId) = .ok p) :
    (∀ f m flow m', execAll f p.body m = .done flow m' →
      flow = .next ∧ Passed (exec f) p.body m m') ∧
    (∀ f (m m' : Machine), m.execute f p = .done () m' → ∃ m₁, m' = m₁.atRest ∧
      Passed (exec f) p.body { m with depths := m.depths.merge p.depths } m₁) ∧
    (∀ ps held s, Reached ps held s → s.nextId = firstId → ∀ f b,
      execAll f p.body { s.machine with depths := s.machine.depths.merge p.depths } ≠ .broken b) ∧
    (∀ f s m v m', exec f s m = .done (.returned v) m' ↔ ∃ e, Raises f s e m v m') ∧
    (∀ f s e m v m', Raises f s e m v m' →
      e ∈ s.returns ∧ ∃ g m₁ m₂, Run.optional (eval g) e m₁ = .done v m₂) ∧
    (∀ f c args m v m', Run.apply (exec f) c args m = .done v m' ↔
      ∃ w m₁, ((∃ e, RaisesIn f c.decl.body e (m.inside c.env (Run.parameters c args)) w m₁) ∨
          (w = .nil ∧ Passed (exec f) c.decl.body (m.inside c.env (Run.parameters c args)) m₁)) ∧
        m' = { m₁ with frame := m.frame } ∧
        if c.isInit then m₁.store.getAt c.env 0 thisName = .ok v else v = w) ∧
    (∀ c s, Visits p.body c (.stmt s) → c.function = .initializer → ∀ f m v m',
      exec f s m = .done (.returned v) m' → v = .nil) ∧
    ∀ c span name parent decls, Visits p.body c (.stmt (.classDecl span name parent decls)) →
      ∀ d ∈ decls, d.name = initName → (∀ value ∈ Stmt.returnsOf d.body, value = none) ∧
        ∀ f e m v m', RaisesIn f d.body e m v m' → v = .nil := by
  have hbuilt := (Program.ofParse_built hp).1
  have hall : ∀ f m flow m', execAll f p.body m = .done flow m' →
      flow = .next ∧ Passed (exec f) p.body m m' := by
    intro f m flow m' h
    cases flow with
    | next => exact ⟨rfl, sequence_next_iff.mp h⟩
    | returned v => exact absurd h (hbuilt.onward f m v m')
  -- a `return` without a value gives `nil`
  have hnil : ∀ {f s e m v m'}, Raises f s e m v m' → e = none → v = .nil := by
    rintro f s e m v m' hraises rfl
    obtain ⟨-, g, m₁, m₂, hvalue⟩ := hraises.mem_returns
    exact (Run.pure_done_iff.mp hvalue).1.symm
  refine ⟨hall, fun f m m' h => ?_, ?_, exec_returned_iff, fun f s e m v m' => Raises.mem_returns,
    apply_done_iff, fun c s hv hc f m v m' h => ?_, fun c span name parent decls hv d hd hname => ?_⟩
  · unfold Machine.execute at h
    split at h
    next flow m₁ hrun =>
      cases h
      exact ⟨m₁, rfl, (hall f _ flow m₁ hrun).2⟩
    all_goals cases h
  · rintro ps held s h rfl f
    obtain ⟨W, σ, ht, -⟩ := h.tracked
    exact (ht.sequence hp (Lexical.all_agree f).2.2).unbroken
  · obtain ⟨e, hraises⟩ := (exec_returned_iff f s m v m').mp h
    exact hnil hraises (((hv.accepted hbuilt).returns_allowed e hraises.mem_returns.1).2 hc)
  · have hmethods : ∃ c', Visits p.body c' (.methods decls) := by
      cases parent with
      | none => exact ⟨_, hv.child (.head _)⟩
      | some parent => exact ⟨_, hv.child (.tail _ (.head _))⟩
    obtain ⟨c', hv'⟩ := hmethods
    obtain ⟨k, hbody, hk⟩ := initializer_visited hv' d hd hname
    have hnone : ∀ value ∈ Stmt.returnsOf d.body, value = none := fun value hvalue =>
      ((hbody.accepted hbuilt).returnsOf_allowed value hvalue).2 hk
    refine ⟨hnone, fun f e m v m' => ?_⟩
    rintro ⟨front, s, rest, m₁, hdecl, -, hraises⟩
    refine hnil hraises (hnone e (mem_returnsOf ?_ hraises.mem_returns.1))
    rw [hdecl]
    simp

/-- Whether a run ended with a result. -/
def Answer.isDone {α : Type} : Answer α → Bool
  | .done _ _ => true
  | .failed _ _ | .broken _ | .exhausted => false

/-- A method that sets up an object returns out of a block, a function out of a loop, and all
statements of the program are run. -/
theorem return_stays_in_call_nested :
    let text := CharStream.ofString
      "class C { init() { { return; } } } fun f() { while (true) return C(); } f();"
    let m := Machine.initial fun _ => 0
    ∃ p, Program.ofParse (text.parse 0) = .ok p ∧ ∃ m₁,
      Passed (exec 99) p.body { m with depths := m.depths.merge p.depths } m₁ := by
  intro text m
  have hends : (Program.ofParse (text.parse 0)).toOption.any
      (fun p => (m.execute 99 p).isDone) = true := by
    decide +kernel
  cases hp : Program.ofParse (text.parse 0) with
  | error e =>
    rw [hp] at hends
    cases hends
  | ok p =>
    rw [hp] at hends
    change (m.execute 99 p).isDone = true at hends
    cases hrun : m.execute 99 p with
    | done _ m' =>
      obtain ⟨m₁, -, hpassed⟩ := (return_stays_in_call hp).2.1 99 m m' hrun
      exact ⟨p, rfl, m₁, hpassed⟩
    | failed | broken | exhausted =>
      rw [hrun] at hends
      cases hends

end ClassScript
