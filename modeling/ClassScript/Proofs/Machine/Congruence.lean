/-
# What holds of all traced runs

A traced run answers as the run itself does. This is shown of all that traced runs are made
of, and so are other relations between runs and traced runs (`Congruence`) and properties of
traced runs (`Closed`): a step that has nothing to do with calls and output (`Plain`), a
print statement, one run after the other, a run in another frame, a node, a call.

Key theorems: `traced_run`, the answers are those of `eval`, `call` and `exec`, and
`Closed.traced`, which gives a property of traced evaluation from its parts.
-/
import ClassScript.Proofs.Machine.Steady
import ClassScript.Proofs.Machine.Trace

namespace ClassScript

open Scope Traced

/-! ### Plain steps -/

/-- Whether a fault says that a limit was reached, of calls or of output. -/
def Fault.ofLimit : Fault → Bool
  | .tooDeep | .outputFailed _ => true
  | _ => false

/-- The run has nothing to do with calls and output: it is the same with any other limits. -/
structure Plain {α : Type} (r : Run α) : Prop where
  steady : Steady r
  free : ∀ m calls maxCalls sink, r { m with calls, maxCalls, sink } =
    (r m).mapMachine fun m' => { m' with calls, maxCalls, sink }
  within : ∀ {m e m'}, r m = .failed e m' → e.fault.ofLimit = false

namespace Plain

variable {α β : Type} {r : Run α}

theorem pure (a : α) : Plain (Pure.pure a : Run α) := ⟨.pure a, fun _ _ _ _ => rfl, by rintro _ _ _ ⟨⟩⟩

theorem fail {fault : Fault} (h : fault.ofLimit = false) : Plain (Run.fail fault : Run α) :=
  ⟨.fail fault, fun _ _ _ _ => rfl, by rintro _ _ _ ⟨⟩; exact h⟩

theorem exhausted : Plain (Run.exhausted : Run α) :=
  ⟨fun _ => .exhausted, fun _ _ _ _ => rfl, by rintro _ _ _ ⟨⟩⟩

theorem onStore (f : Store → α × Store) : Plain (Run.onStore f) :=
  ⟨.onStore f, fun _ _ _ _ => rfl, by rintro _ _ _ ⟨⟩⟩

theorem define (x : String) (v : Value) : Plain (Run.define x v) :=
  ⟨.define x v, fun _ _ _ _ => rfl, by rintro _ _ _ ⟨⟩⟩

theorem currentFrame : Plain Run.currentFrame :=
  ⟨.currentFrame, fun _ _ _ _ => rfl, by rintro _ _ _ ⟨⟩⟩

theorem writeProperty (i : Nat) (x : String) (v : Value) : Plain (Run.writeProperty i x v) :=
  ⟨.writeProperty i x v, fun _ _ _ _ => rfl, by rintro _ _ _ ⟨⟩⟩

theorem bind {f : α → Run β} (h : Plain r) (hf : ∀ a, Plain (f a)) : Plain (r >>= f) := by
  refine ⟨h.steady.bind fun a => (hf a).steady, fun m calls maxCalls sink => ?_, fun {m e m'} hm => ?_⟩
  · show Run.bind r f _ = (Run.bind r f m).mapMachine _
    unfold Run.bind
    rw [h.free]
    cases r m with
    | done a m' => exact (hf a).free m' calls maxCalls sink
    | failed | broken | exhausted => rfl
  · change Run.bind r f m = _ at hm
    unfold Run.bind at hm
    cases hr : r m with
    | done a m₁ =>
      rw [hr] at hm
      exact (hf a).within hm
    | failed e₁ m₁ =>
      rw [hr] at hm
      cases hm
      exact h.within hr
    | broken | exhausted =>
      rw [hr] at hm
      cases hm

theorem ofExcept {x : Except Fault α} (h : ∀ fault, x = .error fault → fault.ofLimit = false) :
    Plain (Run.ofExcept x) := by
  cases x with
  | ok a => exact .pure a
  | error fault => exact .fail (h fault rfl)

theorem readName (id : Nat) (x : String) : Plain (Run.readName id x) := by
  refine ⟨.readName id x, fun m calls maxCalls sink => ?_, fun {m e m'} h => ?_⟩
  · unfold Run.readName
    dsimp only
    cases m.depths.find? id with
    | some d => dsimp only; cases m.store.getAt m.frame d x <;> rfl
    | none => dsimp only; cases m.store.get globalFrame x <;> rfl
  · unfold Run.readName at h
    split at h <;> split at h <;> cases h
    rfl

theorem writeName (id : Nat) (x : String) (v : Value) : Plain (Run.writeName id x v) := by
  refine ⟨.writeName id x v, fun m calls maxCalls sink => ?_, fun {m e m'} h => ?_⟩
  · unfold Run.writeName
    dsimp only
    cases m.depths.find? id with
    | some d => dsimp only; cases m.store.assignAt m.frame d x v <;> rfl
    | none => dsimp only; cases m.store.assign globalFrame x v <;> rfl
  · unfold Run.writeName at h
    split at h <;> split at h <;> cases h
    rfl

theorem readProperty (v : Value) (x : String) : Plain (Run.readProperty v x) := by
  cases v with
  | object i c =>
    refine ⟨.readProperty _ x, fun m calls maxCalls sink => ?_, fun {m e m'} h => ?_⟩
    · unfold Run.readProperty
      dsimp only
      cases m.store.property i c x <;> rfl
    · unfold Run.readProperty at h
      dsimp only at h
      split at h <;> cases h
      rfl
  | nil | bool | number | text | native | function | cls => exact .fail rfl

theorem readSuper (id : Nat) (x : String) : Plain (Run.readSuper id x) := by
  refine ⟨.readSuper id x, fun m calls maxCalls sink => ?_, fun {m e m'} h => ?_⟩
  · unfold Run.readSuper
    dsimp only
    cases m.depths.find? id with
    | none => rfl
    | some depth =>
      dsimp only
      cases m.store.getAt m.frame depth superName with
      | error b => rfl
      | ok v =>
        cases v with
        | nil | bool | number | text | native | function | object => rfl
        | cls parent =>
          cases depth with
          | zero => rfl
          | succ inner =>
            dsimp only
            cases m.store.getAt m.frame inner thisName with
            | error b => rfl
            | ok v =>
              cases v with
              | nil | bool | number | text | native | function | cls => rfl
              | object i c => dsimp only; cases parent.method? x <;> rfl
  · unfold Run.readSuper at h
    repeat' split at h
    all_goals cases h
    rfl

theorem native (n : Native) (args : List Value) : Plain (Run.native n args) := by
  have hnone : Plain (Run.breach .missingArgument : Run Value) :=
    ⟨fun _ => .broken _, fun _ _ _ _ => rfl, by rintro _ _ _ ⟨⟩⟩
  cases n with
  | clock => exact ⟨.native .clock args, fun _ _ _ _ => rfl, by rintro _ _ _ ⟨⟩⟩
  | str | type =>
    cases args with
    | nil => exact hnone
    | cons v vs => exact .pure _
  | num =>
    cases args with
    | nil => exact hnone
    | cons v vs =>
      refine .ofExcept fun fault h => ?_
      unfold Value.toNumber at h
      repeat' split at h
      all_goals cases h; try rfl

theorem unary (op : UnaryOp) (v : Value) : Plain (Run.ofExcept (op.apply v)) := by
  refine .ofExcept fun fault h => ?_
  unfold UnaryOp.apply at h
  split at h <;> cases h
  rfl

theorem binary (op : BinaryOp) (v w : Value) : Plain (Run.ofExcept (op.apply v w)) := by
  refine .ofExcept fun fault h => ?_
  unfold BinaryOp.apply at h
  split at h <;> cases h
  rfl

theorem closure (frame : Nat) (d : FunctionDecl) (isInit : Bool) :
    Plain (Run.closure frame d isInit) :=
  (Plain.onStore _).bind fun _ => .pure _

theorem methods (frame : Nat) (ds : List FunctionDecl) :
    ∀ table : NameTable Closure, Plain (Run.methods frame ds table) := by
  induction ds with
  | nil => exact fun _ => .pure _
  | cons d ds ih => exact fun _ => (closure frame d _).bind fun _ => ih _

/-- What a call of an initializer gives. -/
theorem initialized (env : Nat) : Plain fun m => match m.store.getAt env 0 thisName with
    | .ok v => .done v m
    | .error _ => .broken .initWithoutThis := by
  refine ⟨fun m => ?_, fun m calls maxCalls sink => ?_, fun {m e m'} h => ?_⟩
  · cases m.store.getAt env 0 thisName with
    | ok v => exact .done (.refl m)
    | error b => exact .broken _
  · dsimp only
    cases m.store.getAt env 0 thisName <;> rfl
  · split at h <;> cases h

end Plain

/-! ### What holds of all traced runs -/

/-- A relation between runs and traced runs that holds of plain steps and of print statements and
goes through all that runs are made of but calls. -/
structure Congruence (R : ∀ {α : Type}, Run α → Traced α → Prop) : Prop where
  seen : ∀ {α : Type} {r : Run α} (view : View), Plain r → R r (seen view r)
  print : ∀ {r : Run Value} {t : Traced Value} (span : Span), R r t →
    R (Run.located span do
      let v ← r
      Run.printLine v.display
      pure .next) (located span (printing span t))
  bind : ∀ {α β : Type} {r : Run α} {t : Traced α} {f : α → Run β} {g : α → Traced β}, R r t →
    (∀ a, R (f a) (g a)) → R (r >>= f) (t >>= g)
  located : ∀ {α : Type} {r : Run α} {t : Traced α} (span : Span), R r t →
    R (r.located span) (t.located span)
  inFrame : ∀ {α : Type} {r : Run α} {t : Traced α} (frame : Nat), R r t →
    R (r.inFrame frame) (t.inFrame frame)

namespace Congruence

variable {R R' : ∀ {α : Type}, Run α → Traced α → Prop} {eval : Expr → Run Value}
  {call : Value → List Value → Run Value} {exec : Stmt → Run Flow} {teval : Expr → Traced Value}
  {tcall : Value → List Value → Traced Value} {texec : Stmt → Traced Flow}
  {tbody : Closure → Stmt → Traced Flow} {α : Type} {r r' : Run α} {t t' : Traced α}

theorem quiet (h : Congruence R) (hr : Plain r) : R r (Traced.quiet r) :=
  h.seen _ hr

theorem pure (h : Congruence R) (a : α) : R (Pure.pure a) (Pure.pure a) :=
  h.quiet (.pure a)

theorem ite (h : R r t) (h' : R r' t') {c : Prop} [Decidable c] :
    R (if c then r else r') (if c then t else t') := by
  by_cases hc : c
  · rwa [if_pos hc, if_pos hc]
  · rwa [if_neg hc, if_neg hc]

theorem each (h : Congruence R) (he : ∀ e, R (eval e) (teval e)) (es : List Expr) :
    R (Run.each eval es) (Traced.each teval es) := by
  induction es with
  | nil => exact h.pure _
  | cons e es ih => exact h.bind (he e) fun _ => h.bind ih fun _ => h.pure _

theorem sequence (h : Congruence R) (hx : ∀ s, R (exec s) (texec s)) (ss : List Stmt) :
    R (Run.sequence exec ss) (Traced.sequence texec ss) := by
  induction ss with
  | nil => exact h.pure _
  | cons s ss ih =>
    refine h.bind (hx s) fun flow => ?_
    cases flow with
    | next => exact ih
    | returned v => exact h.pure _

theorem rounds (h : Congruence R) {c : Run Value} {body : Run Flow} {tc : Traced Value}
    {tbody : Traced Flow} (hc : R c tc) (hb : R body tbody) (n : Nat) :
    R (Run.rounds c body n) (Traced.rounds tc tbody n) := by
  induction n with
  | zero => exact h.quiet .exhausted
  | succ n ih =>
    refine h.bind hc fun v => ite (h.bind hb fun flow => ?_) (h.pure _)
    cases flow with
    | next => exact ih
    | returned v => exact h.pure _

theorem apply (h : Congruence R) (hx : ∀ c s, R (exec s) (tbody c s)) (c : Closure)
    (args : List Value) : R (Run.apply exec c args) (Traced.apply tbody c args) := by
  refine h.bind (h.quiet (.onStore _)) fun frame =>
    h.bind (h.inFrame frame (h.sequence (hx c) c.decl.body)) fun flow =>
    ite (h.quiet (.initialized c.env)) ?_
  cases flow with
  | next => exact h.pure _
  | returned v => exact h.pure _

theorem invoke (h : Congruence R) (hx : ∀ c s, R (exec s) (tbody c s)) (callee : Value)
    (args : List Value) : R (Run.invoke exec callee args) (Traced.invoke tbody callee args) := by
  cases callee with
  | native n => exact h.quiet (.native n args)
  | function c => exact h.apply hx c args
  | cls c =>
    refine h.bind (h.quiet (.onStore _)) fun ident => ?_
    cases c.init? with
    | none => exact h.pure _
    | some init =>
      exact h.bind (h.seen _ (.onStore _)) fun bound => h.bind (h.apply hx bound args) fun _ => h.pure _
  | nil | bool | number | text | object => exact h.quiet (.fail rfl)

/-- **A call,** given how the relation inside of a call gives the one around it. -/
theorem callStep (h : Congruence R) (h' : Congruence R') (hx : ∀ c s, R' (exec s) (tbody c s))
    (active : Nat) (callee : Value) (args : List Value)
    (hcall : ∀ {r : Run Value} {t : Traced Value}, R' r t → R r.asCall (t.asCall active callee args)) :
    R (Run.callStep exec callee args) (Traced.callStep tbody active callee args) := by
  unfold Run.callStep Traced.callStep
  cases callee.arity? with
  | none => exact h.quiet (.fail rfl)
  | some arity => exact ite (h.quiet (.fail rfl)) (hcall (h'.invoke hx callee args))

theorem declareClass (h : Congruence R) (x : String) (parent : Option Class)
    (ds : List FunctionDecl) : R (Run.declareClass x parent ds) (Traced.declareClass x parent ds) := by
  refine h.bind (h.quiet .currentFrame) fun outer => ?_
  cases parent with
  | none =>
    exact h.bind (h.pure outer) fun frame => h.bind (h.quiet (.methods frame ds _)) fun _ =>
      h.bind (h.quiet (.onStore _)) fun _ => h.quiet (.define x _)
  | some c =>
    exact h.bind (h.seen _ (.onStore _)) fun frame => h.bind (h.quiet (.methods frame ds _)) fun _ =>
      h.bind (h.quiet (.onStore _)) fun _ => h.quiet (.define x _)

theorem optional (h : Congruence R) (he : ∀ e, R (eval e) (teval e)) (e : Option Expr) :
    R (Run.optional eval e) (Traced.optional teval e) := by
  cases e with
  | none => exact h.pure _
  | some e => exact he e

theorem superclass (h : Congruence R) (he : ∀ e, R (eval e) (teval e)) (u : Option NameUse) :
    R (Run.superclass eval u) (Traced.superclass teval u) := by
  cases u with
  | none => exact h.pure _
  | some u =>
    refine h.bind (he u.expr) fun v => ?_
    cases v with
    | cls c => exact h.pure _
    | nil | bool | number | text | native | function | object =>
      exact h.located _ (h.quiet (.fail rfl))

/-- **An expression,** given its parts and calls. -/
theorem exprStep (h : Congruence R) (he : ∀ e, R (eval e) (teval e))
    (hc : ∀ v vs, R (call v vs) (tcall v vs)) (e : Expr) :
    R (Run.exprStep eval call e) (Traced.exprStep teval tcall e) := by
  refine h.located e.span ?_
  cases e with
  | literal _ l => exact h.pure _
  | group _ e => exact he e
  | «variable» m x => exact h.quiet (.readName m.id x)
  | assign m x e =>
    exact h.bind (he e) fun v => h.bind (h.quiet (.writeName m.id x v)) fun _ => h.pure v
  | unary _ op e => exact h.bind (he e) fun v => h.quiet (.unary op v)
  | binary _ op l r => exact h.bind (he l) fun v => h.bind (he r) fun w => h.quiet (.binary op v w)
  | logical _ op l r => exact h.bind (he l) fun v => ite (h.pure v) (he r)
  | call _ callee args => exact h.bind (he callee) fun v => h.bind (h.each he args) fun vs => hc v vs
  | get _ e x => exact h.bind (he e) fun v => h.seen _ (.readProperty v x)
  | set _ e x value =>
    refine h.bind (he e) fun v => ?_
    cases v with
    | object i c =>
      exact h.bind (he value) fun v => h.bind (h.quiet (.writeProperty i x v)) fun _ => h.pure v
    | nil | bool | number | text | native | function | cls => exact h.quiet (.fail rfl)
  | this m => exact h.quiet (.readName m.id thisName)
  | super m x => exact h.seen _ (.readSuper m.id x)

/-- **A statement,** given its expressions and statements. -/
theorem stmtStep (h : Congruence R) (he : ∀ e, R (eval e) (teval e)) (hx : ∀ s, R (exec s) (texec s))
    (limit : Nat) (s : Stmt) :
    R (Run.stmtStep eval exec limit s) (Traced.stmtStep teval texec limit s) := by
  cases s with
  | expression span e => exact h.located span (h.bind (he e) fun _ => h.pure _)
  | print span e => exact h.print span (he e)
  | var span x init =>
    exact h.located span (h.bind (h.optional he init) fun v => h.bind (h.quiet (.define x v)) fun _ =>
      h.pure _)
  | block span body =>
    exact h.located span (h.bind (h.quiet .currentFrame) fun outer =>
      h.bind (h.quiet (.onStore _)) fun frame => h.inFrame frame (h.sequence hx body))
  | branch span c yes no =>
    refine h.located span (h.bind (he c) fun v => ite (hx yes) ?_)
    cases no with
    | none => exact h.pure _
    | some s => exact hx s
  | loop span c body => exact h.located span (h.rounds (he c) (hx body) limit)
  | function span d =>
    exact h.located span (h.bind (h.quiet .currentFrame) fun frame =>
      h.bind (h.quiet (.closure frame d false)) fun c =>
      h.bind (h.quiet (.define d.name (.function c))) fun _ => h.pure _)
  | «return» span value => exact h.located span (h.bind (h.optional he value) fun _ => h.pure _)
  | classDecl span name parent ds =>
    exact h.located span (h.bind (h.superclass he parent) fun c =>
      h.bind (h.declareClass name.name c ds) fun _ => h.pure _)

end Congruence

/-! ### Answers -/

namespace Traced

variable {α β : Type}

theorem run_bind (t : Traced α) (f : α → Traced β) : (t >>= f).run = t.run >>= fun a => (f a).run := by
  funext m
  show (Traced.bind t f m).2 = Run.bind t.run (fun a => (f a).run) m
  unfold Traced.bind Run.bind run
  obtain ⟨es, x⟩ := t m
  cases x <;> rfl

end Traced

/-- The traced run answers as the run does. -/
def Tells {α : Type} (r : Run α) (t : Traced α) : Prop := t.run = r

theorem tells_congruence : Congruence Tells where
  seen _ _ := rfl
  print span h := by
    obtain rfl : _ = _ := h
    show Run.located span (printing span _).run = _
    unfold printing
    rw [run_bind]
    refine congrArg (fun f => Run.located span (_ >>= f)) (funext fun v => ?_)
    exact run_bind _ _
  bind h hf := by
    obtain rfl : _ = _ := h
    rw [Tells, run_bind]
    exact congrArg _ (funext hf)
  located span h := by rw [← h]; rfl
  inFrame frame h := by rw [← h]; rfl

/-- **Traced evaluation answers as evaluation does.** -/
theorem traced_run (f : Nat) : ∀ active,
    (∀ within e, (tracedEval f active within e).run = eval f e) ∧
    (∀ v vs, (tracedCall f active v vs).run = call f v vs) ∧
    ∀ within s, (tracedExec f active within s).run = exec f s := by
  induction f with
  | zero => exact fun _ => ⟨fun _ _ => rfl, fun _ _ => rfl, fun _ _ => rfl⟩
  | succ f ih =>
    intro active
    obtain ⟨he, hc, hx⟩ := ih active
    refine ⟨fun within e => ?_, fun v vs => ?_, fun within s => ?_⟩
    · have heq : eval (f + 1) e = Run.exprStep (eval f) (call f) e :=
        funext fun m => by simp only [eval, staged_eq]
      rw [heq]
      exact tells_congruence.exprStep (he within) hc e
    · have heq : call (f + 1) v vs = Run.callStep (exec f) v vs :=
        funext fun m => by simp only [call, staged_eq]
      rw [heq]
      refine tells_congruence.callStep tells_congruence
        (fun c => (ih (active + 1)).2.2 (some c)) active v vs fun h => ?_
      rw [← h]
      rfl
    · have heq : exec (f + 1) s = Run.stmtStep (eval f) (exec f) f s :=
        funext fun m => by simp only [exec, staged_eq]
      rw [heq]
      exact tells_congruence.stmtStep (he within) (hx within) f s

theorem tracedAll_run (f : Nat) (program : List Stmt) : (tracedAll f program).run = execAll f program :=
  tells_congruence.sequence ((traced_run f 0).2.2 none) program

/-- Running a program gives the answer that tracing it gives, with the machine put to rest. -/
theorem Machine.execute_eq (f : Nat) (p : Program) (m : Machine) :
    m.execute f p = match (tracedAll f p.body { m with depths := m.depths.merge p.depths }).2 with
      | .done _ m' => .done () m'.atRest
      | .failed e m' => .failed e m'.atRest
      | .broken b => .broken b
      | .exhausted => .exhausted := by
  unfold Machine.execute
  rw [← tracedAll_run]
  rfl

/-! ### Properties of traced runs -/

/-- A property of traced runs, while a number of calls are active, that goes through all that they
are made of. A run that leaves the control of the machine as it found it may be taken for granted. -/
structure Closed (P : Nat → ∀ {α : Type}, Traced α → Prop) : Prop where
  seen : ∀ {d : Nat} {α : Type} {r : Run α} (view : View), Plain r →
    P d (Traced.seen view r)
  print : ∀ {d : Nat} {t : Traced Value} (span : Span), Steady t.run → P d t →
    P d (located span (printing span t))
  bind : ∀ {d : Nat} {α β : Type} {t : Traced α} {g : α → Traced β}, Steady t.run → P d t →
    (∀ a, P d (g a)) → P d (t >>= g)
  located : ∀ {d : Nat} {α : Type} {t : Traced α} (span : Span), P d t → P d (t.located span)
  inFrame : ∀ {d : Nat} {α : Type} {t : Traced α} (frame : Nat), P d t → P d (t.inFrame frame)
  visit : ∀ {d : Nat} {α : Type} {t : Traced α} (within : Option Closure) (n : Node), P d t →
    P d (t.visit within n)
  asCall : ∀ {d : Nat} {α : Type} {t : Traced α} (callee : Value) (args : List Value),
    Steady t.run → P (d + 1) t → P d (t.asCall d callee args)

namespace Closed

variable {P : Nat → ∀ {α : Type}, Traced α → Prop}

theorem congruence (h : Closed P) (d : Nat) :
    Congruence fun {_} r t => Tells r t ∧ Steady r ∧ P d t where
  seen view hr := ⟨rfl, hr.steady, h.seen view hr⟩
  print span ht := by
    obtain ⟨rfl, hsteady, hP⟩ := ht
    refine ⟨tells_congruence.print span rfl, ?_, h.print span hsteady hP⟩
    exact (hsteady.bind fun v => (Steady.printLine v.display).bind fun _ => .pure _).located span
  bind ht hg := by
    obtain ⟨rfl, hsteady, hP⟩ := ht
    exact ⟨tells_congruence.bind rfl fun a => (hg a).1, hsteady.bind fun a => (hg a).2.1,
      h.bind hsteady hP fun a => (hg a).2.2⟩
  located span ht := ⟨tells_congruence.located span ht.1, ht.2.1.located span, h.located span ht.2.2⟩
  inFrame frame ht :=
    ⟨tells_congruence.inFrame frame ht.1, ht.2.1.inFrame frame, h.inFrame frame ht.2.2⟩

/-- **What goes through all that traced runs are made of holds of traced evaluation.** -/
theorem traced (h : Closed P) (f : Nat) : ∀ d, (∀ within e, P d (tracedEval f d within e)) ∧
    (∀ v vs, P d (tracedCall f d v vs)) ∧ ∀ within s, P d (tracedExec f d within s) := by
  induction f with
  | zero =>
    have hspent : ∀ {d : Nat} {α : Type}, P d (quiet (Run.exhausted : Run α)) := h.seen _ .exhausted
    exact fun _ => ⟨fun _ _ => hspent, fun _ _ => hspent, fun _ _ => hspent⟩
  | succ f ih =>
    intro d
    obtain ⟨hse, hsc, hsx⟩ := runs_steady f
    obtain ⟨hte, htc, htx⟩ := traced_run f d
    obtain ⟨he, hc, hx⟩ := ih d
    refine ⟨fun within e => ?_, fun v vs => ?_, fun within s => ?_⟩
    · simp only [tracedEval]
      exact h.visit _ _ ((h.congruence d).exprStep
        (fun e => ⟨hte within e, hse e, he within e⟩) (fun v vs => ⟨htc v vs, hsc v vs, hc v vs⟩) e).2.2
    · simp only [tracedCall]
      refine ((h.congruence d).callStep (h.congruence (d + 1))
        (fun c s => ⟨(traced_run f (d + 1)).2.2 (some c) s, hsx s, (ih (d + 1)).2.2 (some c) s⟩) d v vs
        fun ht => ?_).2.2
      obtain ⟨rfl, hsteady, hP⟩ := ht
      exact ⟨rfl, hsteady.asCall, h.asCall v vs hsteady hP⟩
    · simp only [tracedExec]
      exact h.visit _ _ ((h.congruence d).stmtStep (fun e => ⟨hte within e, hse e, he within e⟩)
        (fun s => ⟨htx within s, hsx s, hx within s⟩) f s).2.2

theorem program (h : Closed P) (f : Nat) (program : List Stmt) : P 0 (tracedAll f program) :=
  ((h.congruence 0).sequence (fun s => ⟨(traced_run f 0).2.2 none s, (runs_steady f).2.2 s,
    (h.traced f 0).2.2 none s⟩) program).2.2

end Closed

end ClassScript
