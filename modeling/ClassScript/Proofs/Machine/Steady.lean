/-
# What a run leaves as it was

A run changes the store, the output and how often the clock was asked. However it ends,
the current frame is the one it was and as many calls are active as before (`Steady`):
what is entered is left again, also by an error.

A statement that stands in no function does not return (`exec_onward`), for the analysis
allows `return` in functions only. So the statements of a program are all executed unless
one of them fails, and a program may be run in pieces.

Key theorems: `runs_steady`, `exec_onward`.
-/
import ClassScript.Proofs.Machine.Below
import ClassScript.Proofs.Scope.Accepted

namespace ClassScript

open Scope

/-- What no run changes. -/
structure Kept (m m' : Machine) : Prop where
  frame : m'.frame = m.frame
  depths : m'.depths = m.depths
  calls : m'.calls = m.calls
  maxCalls : m'.maxCalls = m.maxCalls
  clock : m'.clock = m.clock

/-- The answer of a run that started with the machine `m` and has kept what no run changes. -/
inductive Keeps (m : Machine) {α : Type} : Answer α → Prop
  | done {a : α} {m' : Machine} (h : Kept m m') : Keeps m (.done a m')
  | failed {e : RuntimeError} {m' : Machine} (h : Kept m m') : Keeps m (.failed e m')
  | broken (b : Breach) : Keeps m (.broken b)
  | exhausted : Keeps m .exhausted

/-- The run keeps what no run changes, whether it fails or not. -/
def Steady {α : Type} (r : Run α) : Prop := ∀ m, Keeps m (r m)

variable {α β : Type} {r : Run α} {m m' m'' : Machine}

theorem Kept.refl (m : Machine) : Kept m m := ⟨rfl, rfl, rfl, rfl, rfl⟩

theorem Kept.trans (h : Kept m m') (h' : Kept m' m'') : Kept m m'' :=
  ⟨h'.frame.trans h.frame, h'.depths.trans h.depths, h'.calls.trans h.calls,
    h'.maxCalls.trans h.maxCalls, h'.clock.trans h.clock⟩

theorem Kept.store (m : Machine) (store : Store) : Kept m { m with store } :=
  ⟨rfl, rfl, rfl, rfl, rfl⟩

theorem Kept.sink (m : Machine) (sink : Sink) : Kept m { m with sink } :=
  ⟨rfl, rfl, rfl, rfl, rfl⟩

theorem Keeps.trans {x : Answer α} (h : Kept m m') (hx : Keeps m' x) : Keeps m x := by
  cases hx with
  | done h' => exact .done (h.trans h')
  | failed h' => exact .failed (h.trans h')
  | broken b => exact .broken b
  | exhausted => exact .exhausted

namespace Steady

theorem pure (a : α) : Steady (Pure.pure a : Run α) := fun m => .done (.refl m)

theorem fail (fault : Fault) : Steady (Run.fail fault : Run α) := fun m => .failed (.refl m)

/-- **One run after the other.** -/
theorem bind {f : α → Run β} (h : Steady r) (hf : ∀ a, Steady (f a)) : Steady (r >>= f) := by
  intro m
  have hm := h m
  show Keeps m (Run.bind r f m)
  unfold Run.bind
  generalize r m = x at hm
  cases hm with
  | done hkept => exact .trans hkept (hf _ _)
  | failed hkept => exact .failed hkept
  | broken b => exact .broken b
  | exhausted => exact .exhausted

theorem located (h : Steady r) (span : Span) : Steady (r.located span) := by
  intro m
  have hm := h m
  unfold Run.located
  generalize r m = x at hm
  cases hm with
  | done hkept => exact .done hkept
  | failed hkept => exact .failed hkept
  | broken b => exact .broken b
  | exhausted => exact .exhausted

/-- A frame that was entered is left. -/
theorem inFrame (h : Steady r) (frame : Nat) : Steady (r.inFrame frame) := by
  intro m
  have hm := h { m with frame }
  have hback : ∀ {m'}, Kept { m with frame } m' → Kept m { m' with frame := m.frame } :=
    fun hkept => ⟨rfl, hkept.depths, hkept.calls, hkept.maxCalls, hkept.clock⟩
  unfold Run.inFrame
  dsimp only
  generalize r { m with frame } = x at hm
  cases hm with
  | done hkept => exact .done (hback hkept)
  | failed hkept => exact .failed (hback hkept)
  | broken b => exact .broken b
  | exhausted => exact .exhausted

/-- A call that was made is over. -/
theorem asCall (h : Steady r) : Steady r.asCall := by
  intro m
  unfold Run.asCall
  by_cases hdeep : m.maxCalls ≤ m.calls
  · rw [if_pos hdeep]
    exact .failed (.refl m)
  · rw [if_neg hdeep]
    have hm := h { m with calls := m.calls + 1 }
    have hback : ∀ {m'}, Kept { m with calls := m.calls + 1 } m' →
        Kept m { m' with calls := m'.calls - 1 } := fun hkept =>
      ⟨hkept.frame, hkept.depths, by simp [hkept.calls], hkept.maxCalls, hkept.clock⟩
    generalize r { m with calls := m.calls + 1 } = x at hm
    cases hm with
    | done hkept => exact .done (hback hkept)
    | failed hkept => exact .failed (hback hkept)
    | broken b => exact .broken b
    | exhausted => exact .exhausted

theorem ite {c : Prop} [Decidable c] {p : Run α} (h : Steady r) (hp : Steady p) :
    Steady (if c then r else p) := by
  by_cases hc : c
  · rwa [if_pos hc]
  · rwa [if_neg hc]

/-! ### Single steps -/

theorem onStore (f : Store → α × Store) : Steady (Run.onStore f) := fun m => .done (.store m _)

theorem define (x : String) (v : Value) : Steady (Run.define x v) := fun m => .done (.store m _)

theorem currentFrame : Steady Run.currentFrame := fun m => .done (.refl m)

theorem ofExcept (x : Except Fault α) : Steady (Run.ofExcept x) := by
  cases x with
  | ok a => exact .pure a
  | error fault => exact .fail fault

theorem readName (id : Nat) (x : String) : Steady (Run.readName id x) := by
  intro m
  unfold Run.readName
  cases m.depths.find? id with
  | some d =>
    dsimp only
    cases m.store.getAt m.frame d x with
    | ok v => exact .done (.refl m)
    | error b => exact .broken b
  | none =>
    dsimp only
    cases m.store.get globalFrame x with
    | some v => exact .done (.refl m)
    | none => exact .failed (.refl m)

theorem writeName (id : Nat) (x : String) (v : Value) : Steady (Run.writeName id x v) := by
  intro m
  unfold Run.writeName
  cases m.depths.find? id with
  | some d =>
    dsimp only
    cases m.store.assignAt m.frame d x v with
    | ok store => exact .done (.store m store)
    | error b => exact .broken b
  | none =>
    dsimp only
    cases m.store.assign globalFrame x v with
    | some store => exact .done (.store m store)
    | none => exact .failed (.refl m)

theorem readSuper (id : Nat) (x : String) : Steady (Run.readSuper id x) := by
  intro m
  unfold Run.readSuper
  split
  · exact .broken _
  · split
    · exact .broken _
    · split
      · exact .broken _
      · split
        · exact .broken _
        · split
          · exact .failed (.refl m)
          · exact .done (.store m _)
        · exact .broken _
    · exact .broken _

theorem printLine (text : String) : Steady (Run.printLine text) := by
  intro m
  unfold Run.printLine
  split
  · exact .done (.sink m _)
  · exact .failed (.sink m _)

theorem readProperty (v : Value) (x : String) : Steady (Run.readProperty v x) := by
  intro m
  unfold Run.readProperty
  split
  · split
    · exact .done (.store m _)
    · exact .failed (.refl m)
  · exact .failed (.refl m)

theorem writeProperty (i : Nat) (x : String) (v : Value) : Steady (Run.writeProperty i x v) :=
  fun m => .done (.store m _)

theorem native (n : Native) (args : List Value) : Steady (Run.native n args) := by
  cases n with
  | clock => exact .bind (fun _ => .done ⟨rfl, rfl, rfl, rfl, rfl⟩) fun _ => .pure _
  | str | type =>
    cases args with
    | nil => exact fun _ => .broken _
    | cons v vs => exact .pure _
  | num =>
    cases args with
    | nil => exact fun _ => .broken _
    | cons v vs => exact .ofExcept _

end Steady

/-! ### One level of the recursion -/

section

variable {eval : Expr → Run Value} {call : Value → List Value → Run Value} {exec : Stmt → Run Flow}

theorem each_steady (he : ∀ e, Steady (eval e)) (es : List Expr) : Steady (Run.each eval es) := by
  induction es with
  | nil => exact .pure _
  | cons e es ih => exact (he e).bind fun _ => ih.bind fun _ => .pure _

theorem sequence_steady (hx : ∀ s, Steady (exec s)) (ss : List Stmt) :
    Steady (Run.sequence exec ss) := by
  induction ss with
  | nil => exact .pure _
  | cons s ss ih =>
    refine (hx s).bind fun flow => ?_
    cases flow with
    | next => exact ih
    | returned v => exact .pure _

theorem rounds_steady {c : Run Value} {body : Run Flow} (hc : Steady c) (hb : Steady body) (n : Nat) :
    Steady (Run.rounds c body n) := by
  induction n with
  | zero => exact fun _ => .exhausted
  | succ n ih =>
    refine hc.bind fun v => .ite (hb.bind fun flow => ?_) (.pure _)
    cases flow with
    | next => exact ih
    | returned v => exact .pure _

theorem optional_steady (he : ∀ e, Steady (eval e)) (e : Option Expr) :
    Steady (Run.optional eval e) := by
  cases e with
  | none => exact .pure _
  | some e => exact he e

theorem superclass_steady (he : ∀ e, Steady (eval e)) (u : Option NameUse) :
    Steady (Run.superclass eval u) := by
  cases u with
  | none => exact .pure _
  | some u =>
    refine (he u.expr).bind fun v => ?_
    cases v with
    | cls c => exact .pure _
    | nil | bool | number | text | native | function | object => exact (Steady.fail _).located _

theorem apply_steady (hx : ∀ s, Steady (exec s)) (c : Closure) (args : List Value) :
    Steady (Run.apply exec c args) := by
  refine (Steady.onStore _).bind fun frame =>
    ((sequence_steady hx c.decl.body).inFrame frame).bind fun flow => .ite (fun m => ?_) ?_
  · cases m.store.getAt c.env 0 thisName with
    | ok v => exact .done (.refl m)
    | error b => exact .broken _
  · cases flow with
    | next => exact .pure _
    | returned v => exact .pure _

theorem construct_steady (hx : ∀ s, Steady (exec s)) (c : Class) (args : List Value) :
    Steady (Run.construct exec c args) := by
  refine (Steady.onStore _).bind fun ident => ?_
  cases c.init? with
  | none => exact .pure _
  | some init =>
    exact (Steady.onStore _).bind fun bound => (apply_steady hx bound args).bind fun _ => .pure _

theorem callStep_steady (hx : ∀ s, Steady (exec s)) (callee : Value) (args : List Value) :
    Steady (Run.callStep exec callee args) := by
  have hinvoke : Steady (Run.invoke exec callee args) := by
    cases callee with
    | native n => exact .native n args
    | function c => exact apply_steady hx c args
    | cls c => exact construct_steady hx c args
    | nil | bool | number | text | object => exact .fail _
  unfold Run.callStep
  cases callee.arity? with
  | none => exact .fail _
  | some arity => exact .ite (.fail _) hinvoke.asCall

theorem closure_steady (frame : Nat) (d : FunctionDecl) (isInit : Bool) :
    Steady (Run.closure frame d isInit) :=
  (Steady.onStore _).bind fun _ => .pure _

theorem methods_steady (frame : Nat) (ds : List FunctionDecl) :
    ∀ table : NameTable Closure, Steady (Run.methods frame ds table) := by
  induction ds with
  | nil => exact fun _ => .pure _
  | cons d ds ih => exact fun _ => (closure_steady frame d _).bind fun _ => ih _

theorem declareClass_steady (x : String) (parent : Option Class) (ds : List FunctionDecl) :
    Steady (Run.declareClass x parent ds) := by
  refine Steady.currentFrame.bind fun outer => ?_
  cases parent with
  | none =>
    exact (Steady.pure outer).bind fun frame => (methods_steady frame ds _).bind fun _ =>
      (Steady.onStore _).bind fun _ => .define x _
  | some c =>
    exact (Steady.onStore _).bind fun frame => (methods_steady frame ds _).bind fun _ =>
      (Steady.onStore _).bind fun _ => .define x _

theorem exprStep_steady (he : ∀ e, Steady (eval e)) (hc : ∀ v vs, Steady (call v vs)) (e : Expr) :
    Steady (Run.exprStep eval call e) := by
  refine .located ?_ e.span
  cases e with
  | literal _ l => exact .pure _
  | group _ e => exact he e
  | «variable» m x => exact .readName m.id x
  | assign m x e => exact (he e).bind fun v => (Steady.writeName m.id x v).bind fun _ => .pure v
  | unary _ op e => exact (he e).bind fun _ => .ofExcept _
  | binary _ op l r => exact (he l).bind fun _ => (he r).bind fun _ => .ofExcept _
  | logical _ op l r => exact (he l).bind fun v => .ite (.pure v) (he r)
  | call _ callee args =>
    exact (he callee).bind fun v => (each_steady he args).bind fun vs => hc v vs
  | get _ e x => exact (he e).bind fun v => .readProperty v x
  | set _ e x value =>
    refine (he e).bind fun v => ?_
    cases v with
    | object i c => exact (he value).bind fun v => (Steady.writeProperty i x v).bind fun _ => .pure v
    | nil | bool | number | text | native | function | cls => exact .fail _
  | this m => exact .readName m.id thisName
  | super m x => exact .readSuper m.id x

theorem stmtStep_steady (he : ∀ e, Steady (eval e)) (hx : ∀ s, Steady (exec s)) (limit : Nat)
    (s : Stmt) : Steady (Run.stmtStep eval exec limit s) := by
  refine .located ?_ s.span
  cases s with
  | expression _ e => exact (he e).bind fun _ => .pure _
  | print _ e => exact (he e).bind fun v => (Steady.printLine v.display).bind fun _ => .pure _
  | var _ x init =>
    exact (optional_steady he init).bind fun v => (Steady.define x v).bind fun _ => .pure _
  | block _ body =>
    exact Steady.currentFrame.bind fun outer => (Steady.onStore _).bind fun frame =>
      (sequence_steady hx body).inFrame frame
  | branch _ c yes no =>
    refine (he c).bind fun v => .ite (hx yes) ?_
    cases no with
    | none => exact .pure _
    | some s => exact hx s
  | loop _ c body => exact rounds_steady (he c) (hx body) limit
  | function _ d =>
    exact Steady.currentFrame.bind fun frame => (closure_steady frame d false).bind fun c =>
      (Steady.define d.name (.function c)).bind fun _ => .pure _
  | «return» _ value => exact (optional_steady he value).bind fun _ => .pure _
  | classDecl _ name parent ds =>
    exact (superclass_steady he parent).bind fun c =>
      (declareClass_steady name.name c ds).bind fun _ => .pure _

end

/-- **Evaluation keeps what no run changes.** -/
theorem runs_steady (f : Nat) : (∀ e, Steady (eval f e)) ∧ (∀ v vs, Steady (call f v vs)) ∧
    ∀ s, Steady (exec f s) := by
  induction f with
  | zero => exact ⟨fun _ _ => .exhausted, fun _ _ _ => .exhausted, fun _ _ => .exhausted⟩
  | succ f ih =>
    obtain ⟨he, hc, hx⟩ := ih
    refine ⟨fun e m => ?_, fun v vs m => ?_, fun s m => ?_⟩
    · simp only [eval, staged_eq]
      exact exprStep_steady he hc e m
    · simp only [call, staged_eq]
      exact callStep_steady hx v vs m
    · simp only [exec, staged_eq]
      exact stmtStep_steady he hx f s m

/-! ### Statements that stand in no function -/

/-- Where the run ends, no `return` was executed in it. -/
def Onward (r : Run Flow) : Prop := ∀ m v m', r m ≠ .done (.returned v) m'

namespace Onward

theorem next : Onward (Pure.pure .next) := fun _ _ _ h => by cases h

theorem bind {r : Run α} {f : α → Run Flow} (hf : ∀ a, Onward (f a)) : Onward (r >>= f) := by
  intro m v m'
  show Run.bind r f m ≠ _
  unfold Run.bind
  cases r m with
  | done a m₁ => exact hf a m₁ v m'
  | failed | broken | exhausted => simp

theorem located {r : Run Flow} (h : Onward r) (span : Span) : Onward (r.located span) := by
  intro m v m'
  have hm := h m v m'
  unfold Run.located
  cases hr : r m with
  | done flow m₁ => rwa [hr] at hm
  | failed | broken | exhausted => simp

theorem inFrame {r : Run Flow} (h : Onward r) (frame : Nat) : Onward (r.inFrame frame) := by
  intro m v m'
  have hm := h { m with frame }
  unfold Run.inFrame
  dsimp only
  cases hr : r { m with frame } with
  | done flow m₁ =>
    cases flow with
    | next => simp [Answer.mapMachine]
    | returned w => exact absurd hr (hm w m₁)
  | failed | broken | exhausted => simp [Answer.mapMachine]

theorem ite {c : Prop} [Decidable c] {r p : Run Flow} (h : Onward r) (hp : Onward p) :
    Onward (if c then r else p) := by
  by_cases hc : c
  · rwa [if_pos hc]
  · rwa [if_neg hc]

/-- After a statement that goes on, a run goes on as it does then. -/
theorem andThen {r : Run Flow} {f : Flow → Run Flow} (h : Onward r) (hf : Onward (f .next)) :
    Onward (r >>= f) := by
  intro m v m'
  show Run.bind r f m ≠ _
  unfold Run.bind
  cases hr : r m with
  | done flow m₁ =>
    cases flow with
    | next => exact hf m₁ v m'
    | returned w => exact absurd hr (h m w m₁)
  | failed | broken | exhausted => simp

end Onward

/-- **Statements behind statements** are run if those do not return. -/
theorem sequence_append (exec : Stmt → Run Flow) (ts : List Stmt) : ∀ (ss : List Stmt) (m : Machine),
    Run.sequence exec (ss ++ ts) m = (Run.sequence exec ss >>= fun flow => match flow with
      | .next => Run.sequence exec ts
      | .returned v => Pure.pure (.returned v)) m
  | [], _ => rfl
  | s :: ss, m => by
    show Run.bind (exec s) _ m = Run.bind (Run.bind (exec s) _) _ m
    unfold Run.bind
    cases exec s m with
    | done flow m₁ =>
      cases flow with
      | next => exact sequence_append exec ts ss m₁
      | returned v => rfl
    | failed | broken | exhausted => rfl

section

variable {Δ : Depths} {c : Context} {eval : Expr → Run Value} {exec : Stmt → Run Flow}

theorem sequence_onward (hx : ∀ {c : Context} {s : Stmt}, Accepted Δ c (.stmt s) →
    c.function = .none → Onward (exec s)) : ∀ {ss : List Stmt} {c : Context},
    Accepted Δ c (.stmts ss) → c.function = .none → Onward (Run.sequence exec ss)
  | [], _, _, _ => .next
  | _ :: _, _, ha, hc =>
    .andThen (hx (ha.child (.head _)) hc) (sequence_onward hx (ha.child (.tail _ (.head _))) hc)

theorem rounds_onward {condition : Run Value} {body : Run Flow} (h : Onward body) (n : Nat) :
    Onward (Run.rounds condition body n) := by
  induction n with
  | zero => exact fun _ _ _ h => by cases h
  | succ n ih => exact .bind fun _ => .ite (.andThen h ih) .next

/-- A `return` that stands in no function is a fault. -/
theorem Scope.Accepted.no_return {s : Span} {value : Option Expr} (hc : c.function = .none)
    (ha : Accepted Δ c (.stmt (.return s value))) : False := by
  have herr := ha.errors
  rw [Context.visit, Analysis.stmt, hc] at herr
  have hvalue := (Analysis.optionalExpr_touches c.kind _ value).errors_nil herr
  have hreport := (Analysis.Touches.reportIf _ _ _ _).errors_nil hvalue
  cases hreport

theorem stmtStep_onward (hx : ∀ {c : Context} {s : Stmt}, Accepted Δ c (.stmt s) →
    c.function = .none → Onward (exec s)) (limit : Nat) {s : Stmt} (ha : Accepted Δ c (.stmt s))
    (hc : c.function = .none) : Onward (Run.stmtStep eval exec limit s) := by
  refine .located ?_ s.span
  cases s with
  | expression => exact .bind fun _ => .next
  | print | var | classDecl => exact .bind fun _ => .bind fun _ => .next
  | function => exact .bind fun _ => .bind fun _ => .bind fun _ => .next
  | block _ body =>
    exact .bind fun _ => .bind fun frame =>
      (sequence_onward hx (ha.child (.head _)) hc).inFrame frame
  | branch _ e yes no =>
    cases no with
    | none => exact .bind fun _ => .ite (hx (ha.child (.tail _ (.head _))) hc) .next
    | some s =>
      exact .bind fun _ => .ite (hx (ha.child (.tail _ (.head _))) hc)
        (hx (ha.child (.tail _ (.tail _ (.head _)))) hc)
  | loop _ e body => exact rounds_onward (hx (ha.child (.tail _ (.head _))) hc) limit
  | «return» => exact (ha.no_return hc).elim

end

/-- **A statement that stands in no function does not return.** -/
theorem exec_onward {Δ : Depths} (f : Nat) : ∀ {c : Context} {s : Stmt}, Accepted Δ c (.stmt s) →
    c.function = .none → Onward (exec f s) := by
  induction f with
  | zero => exact fun _ _ _ _ _ h => by cases h
  | succ f ih =>
    intro c s ha hc m
    simp only [exec, staged_eq]
    exact stmtStep_onward ih f ha hc m

end ClassScript
