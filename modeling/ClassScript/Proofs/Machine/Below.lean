/-
# Runs that stop early

A run is below another one (`Below`) if it gives the same answer, or stops with a given
answer that says nothing: that the fuel is spent, or that an invariant is broken. Whatever
is made of runs is below what is made in the same way of the runs above them, up to one
level of the recursion (`exprStep_below`, `callStep_below`, `stmtStep_below`).

Key theorem: `fuel_below`. More fuel changes no answer.
-/
import Mathlib.Data.Nat.Init
import ClassScript.Session

namespace ClassScript

/-- Why a run stops early. -/
inductive Stop where
  | exhausted
  | broken (b : Breach)

/-- The answer of a run that stops early. -/
def Stop.answer {α : Type} : Stop → Answer α
  | .exhausted => .exhausted
  | .broken b => .broken b

/-- The run `r` answers as `r'` does, unless it stops early. -/
def Below {α : Type} (t : Stop) (r r' : Run α) : Prop := ∀ m, r m = t.answer ∨ r m = r' m

variable {α β : Type} {t : Stop} {r r' : Run α}

namespace Below

theorem refl (t : Stop) (r : Run α) : Below t r r := fun _ => .inr rfl

/-- **One run after the other.** -/
theorem bind {f f' : α → Run β} (h : Below t r r') (hf : ∀ a, Below t (f a) (f' a)) :
    Below t (r >>= f) (r' >>= f') := by
  intro m
  show Run.bind r f m = _ ∨ Run.bind r f m = Run.bind r' f' m
  unfold Run.bind
  rcases h m with hm | hm
  · rw [hm]
    cases t <;> exact .inl rfl
  · rw [hm]
    cases r' m with
    | done a m' => exact hf a m'
    | failed e m' => exact .inr rfl
    | broken b => exact .inr rfl
    | exhausted => exact .inr rfl

theorem located (span : Span) (h : Below t r r') : Below t (r.located span) (r'.located span) := by
  intro m
  unfold Run.located
  rcases h m with hm | hm
  · rw [hm]
    cases t <;> exact .inl rfl
  · rw [hm]
    exact .inr rfl

theorem inFrame (frame : Nat) (h : Below t r r') : Below t (r.inFrame frame) (r'.inFrame frame) := by
  intro m
  unfold Run.inFrame
  dsimp only
  rcases h { m with frame := frame } with hm | hm
  · rw [hm]
    cases t <;> exact .inl rfl
  · rw [hm]
    exact .inr rfl

theorem asCall (h : Below t r r') : Below t r.asCall r'.asCall := by
  intro m
  unfold Run.asCall
  by_cases hdeep : m.maxCalls ≤ m.calls
  · rw [if_pos hdeep, if_pos hdeep]
    exact .inr rfl
  · rw [if_neg hdeep, if_neg hdeep]
    rcases h { m with calls := m.calls + 1 } with hm | hm
    · rw [hm]
      cases t <;> exact .inl rfl
    · rw [hm]
      exact .inr rfl

theorem ite {c : Prop} [Decidable c] {p p' : Run α} (h : Below t r r') (hp : Below t p p') :
    Below t (if c then r else p) (if c then r' else p') := by
  by_cases hc : c
  · rw [if_pos hc, if_pos hc]
    exact h
  · rw [if_neg hc, if_neg hc]
    exact hp

end Below

section

variable {eval eval' : Expr → Run Value} {call call' : Value → List Value → Run Value}
  {exec exec' : Stmt → Run Flow}

theorem each_below (he : ∀ e, Below t (eval e) (eval' e)) (es : List Expr) :
    Below t (Run.each eval es) (Run.each eval' es) := by
  induction es with
  | nil => exact .refl t _
  | cons e es ih => exact (he e).bind fun _ => ih.bind fun _ => .refl t _

theorem sequence_below (hx : ∀ s, Below t (exec s) (exec' s)) (ss : List Stmt) :
    Below t (Run.sequence exec ss) (Run.sequence exec' ss) := by
  induction ss with
  | nil => exact .refl t _
  | cons s ss ih =>
    refine (hx s).bind fun flow => ?_
    cases flow with
    | next => exact ih
    | returned v => exact .refl t _

/-- A loop makes the same rounds. One that may make fewer can only stop early. -/
theorem rounds_below {c c' : Run Value} {body body' : Run Flow} (hc : Below t c c')
    (hb : Below t body body') : ∀ {n n' : Nat}, n = n' ∨ t = .exhausted ∧ n ≤ n' →
    Below t (Run.rounds c body n) (Run.rounds c' body' n')
  | 0, n', h => by
    rcases h with rfl | ⟨rfl, -⟩
    · exact .refl t _
    · exact fun _ => .inl rfl
  | n + 1, 0, h => by omega
  | n + 1, n' + 1, h => by
    have hn : n = n' ∨ t = .exhausted ∧ n ≤ n' :=
      h.imp Nat.succ.inj fun h => ⟨h.1, Nat.le_of_succ_le_succ h.2⟩
    refine hc.bind fun v => .ite (hb.bind fun flow => ?_) (.refl t _)
    cases flow with
    | next => exact rounds_below hc hb hn
    | returned v => exact .refl t _

theorem optional_below (he : ∀ e, Below t (eval e) (eval' e)) : ∀ e : Option Expr,
    Below t (Run.optional eval e) (Run.optional eval' e)
  | none => .refl t _
  | some e => he e

theorem superclass_below (he : ∀ e, Below t (eval e) (eval' e)) : ∀ u : Option NameUse,
    Below t (Run.superclass eval u) (Run.superclass eval' u)
  | none => .refl t _
  | some u => (he u.expr).bind fun _ => .refl t _

theorem apply_below (hx : ∀ s, Below t (exec s) (exec' s)) (c : Closure) (args : List Value) :
    Below t (Run.apply exec c args) (Run.apply exec' c args) :=
  (Below.refl t _).bind fun frame =>
    ((sequence_below hx c.decl.body).inFrame frame).bind fun _ => .refl t _

theorem construct_below (hx : ∀ s, Below t (exec s) (exec' s)) (c : Class) (args : List Value) :
    Below t (Run.construct exec c args) (Run.construct exec' c args) := by
  refine (Below.refl t _).bind fun ident => ?_
  cases c.init? with
  | none => exact .refl t _
  | some init =>
    exact (Below.refl t _).bind fun bound => (apply_below hx bound args).bind fun _ => .refl t _

theorem invoke_below (hx : ∀ s, Below t (exec s) (exec' s)) (callee : Value) (args : List Value) :
    Below t (Run.invoke exec callee args) (Run.invoke exec' callee args) := by
  cases callee with
  | function c => exact apply_below hx c args
  | cls c => exact construct_below hx c args
  | nil | bool | number | text | native | object => exact .refl t _

/-- **A call is below a call,** if its statements are. -/
theorem callStep_below (hx : ∀ s, Below t (exec s) (exec' s)) (callee : Value) (args : List Value) :
    Below t (Run.callStep exec callee args) (Run.callStep exec' callee args) := by
  unfold Run.callStep
  cases callee.arity? with
  | none => exact .refl t _
  | some arity => exact .ite (.refl t _) (invoke_below hx callee args).asCall

/-- **An expression is below itself,** if its parts and calls are. -/
theorem exprStep_below (he : ∀ e, Below t (eval e) (eval' e))
    (hc : ∀ v vs, Below t (call v vs) (call' v vs)) (e : Expr) :
    Below t (Run.exprStep eval call e) (Run.exprStep eval' call' e) := by
  refine .located e.span ?_
  cases e with
  | literal | «variable» | this | super => exact .refl t _
  | group _ e => exact he e
  | assign _ _ e | unary _ _ e | get _ e => exact (he e).bind fun _ => .refl t _
  | binary _ _ l r => exact (he l).bind fun _ => (he r).bind fun _ => .refl t _
  | logical _ _ l r => exact (he l).bind fun _ => .ite (.refl t _) (he r)
  | call _ callee args => exact (he callee).bind fun v => (each_below he args).bind fun vs => hc v vs
  | set _ e _ value =>
    refine (he e).bind fun v => ?_
    cases v with
    | object => exact (he value).bind fun _ => .refl t _
    | nil | bool | number | text | native | function | cls => exact .refl t _

/-- **A statement is below itself,** if its expressions and statements are. -/
theorem stmtStep_below (he : ∀ e, Below t (eval e) (eval' e)) (hx : ∀ s, Below t (exec s) (exec' s))
    {n n' : Nat} (hn : n = n' ∨ t = .exhausted ∧ n ≤ n') (s : Stmt) :
    Below t (Run.stmtStep eval exec n s) (Run.stmtStep eval' exec' n' s) := by
  refine .located s.span ?_
  cases s with
  | expression _ e | print _ e => exact (he e).bind fun _ => .refl t _
  | var _ _ init => exact (optional_below he init).bind fun _ => .refl t _
  | block _ body =>
    exact (Below.refl t _).bind fun _ => (Below.refl t _).bind fun frame =>
      (sequence_below hx body).inFrame frame
  | branch _ c yes no =>
    refine (he c).bind fun _ => .ite (hx yes) ?_
    cases no with
    | none => exact .refl t _
    | some s => exact hx s
  | loop _ c body => exact rounds_below (he c) (hx body) hn
  | function => exact .refl t _
  | «return» _ value => exact (optional_below he value).bind fun _ => .refl t _
  | classDecl _ _ parent => exact (superclass_below he parent).bind fun _ => .refl t _

end

/-! ### Fuel -/

/-- **More fuel changes no answer.** -/
theorem fuel_below : ∀ {f f' : Nat}, f ≤ f' → (∀ e, Below .exhausted (eval f e) (eval f' e)) ∧
    (∀ v vs, Below .exhausted (call f v vs) (call f' v vs)) ∧
    ∀ s, Below .exhausted (exec f s) (exec f' s)
  | 0, _, _ => ⟨fun _ _ => .inl rfl, fun _ _ _ => .inl rfl, fun _ _ => .inl rfl⟩
  | f + 1, 0, h => by omega
  | f + 1, f' + 1, h => by
    have hle : f ≤ f' := by omega
    obtain ⟨he, hc, hx⟩ := fuel_below hle
    refine ⟨fun e m => ?_, fun v vs m => ?_, fun s m => ?_⟩
    · simp only [eval, staged_eq]
      exact exprStep_below he hc e m
    · simp only [call, staged_eq]
      exact callStep_below hx v vs m
    · simp only [exec, staged_eq]
      exact stmtStep_below he hx (.inr ⟨rfl, hle⟩) s m

/-- A text that was run to an end is run to the same end with more fuel. -/
theorem Session.run_fuel {f f' : Nat} (h : f ≤ f') (s : Session) (text : CharStream)
    (hend : (s.run f text).1 ≠ .exhausted) : s.run f' text = s.run f text := by
  unfold Session.run at hend ⊢
  dsimp only at hend ⊢
  cases hp : Program.ofParse (text.parse s.nextId) with
  | error e => rfl
  | ok p =>
    rw [hp] at hend
    dsimp only at hend ⊢
    unfold Session.execute Machine.execute execAll at hend ⊢
    rcases sequence_below (fuel_below h).2.2 p.body
      { s.machine with depths := s.machine.depths.merge p.depths } with hm | hm
    · dsimp only at hend
      rw [hm] at hend
      exact absurd rfl hend
    · dsimp only
      rw [hm]

end ClassScript
