/-
# An error is attributed to what raised it

A runtime error gets the span of the first expression or statement that it passes, and keeps it. A
fault that an activation raises itself passes that activation first, so the span is that of the
innermost activation at the moment it was raised, however far it is passed on then
(`Accounted.inside`). An error about a superclass has got its place already.

Key definitions: `Run.OnlyRaises`, `Accounted`.
Key theorem: `Machine.errors_point_at_innermost`.
-/
import ClassScript.Proofs.Machine.Activations
import ClassScript.Proofs.Machine.Trace

namespace ClassScript

variable {α β : Type} {allowed allowed' : Fault → Prop}

/-! ### What single steps raise -/

/-- All that the run fails with are faults of a kind that have no place yet. -/
def Run.OnlyRaises (allowed : Fault → Prop) (r : Run α) : Prop :=
  ∀ m e m', r m = .failed e m' → ∃ fault, e = ⟨fault, none⟩ ∧ allowed fault

namespace Run.OnlyRaises

variable {r : Run α}

theorem mono (h : OnlyRaises allowed' r) (hallowed : ∀ fault, allowed' fault → allowed fault) :
    OnlyRaises allowed r := by
  intro m e m' hm
  obtain ⟨fault, rfl, hfault⟩ := h m e m' hm
  exact ⟨fault, rfl, hallowed fault hfault⟩

theorem pure (a : α) : OnlyRaises allowed (Pure.pure a : Run α) := by
  rintro _ _ _ ⟨⟩

theorem fail {fault : Fault} (h : allowed fault) : OnlyRaises allowed (Run.fail fault : Run α) := by
  rintro _ _ _ ⟨⟩
  exact ⟨fault, rfl, h⟩

theorem exhausted : OnlyRaises allowed (Run.exhausted : Run α) := by
  rintro _ _ _ ⟨⟩

theorem breach (b : Breach) : OnlyRaises allowed (Run.breach b : Run α) := by
  rintro _ _ _ ⟨⟩

theorem onStore (f : Store → α × Store) : OnlyRaises allowed (Run.onStore f) := by
  rintro _ _ _ ⟨⟩

theorem define (x : String) (v : Value) : OnlyRaises allowed (Run.define x v) := by
  rintro _ _ _ ⟨⟩

theorem currentFrame : OnlyRaises allowed Run.currentFrame := by
  rintro _ _ _ ⟨⟩

theorem bind {f : α → Run β} (h : OnlyRaises allowed r) (hf : ∀ a, OnlyRaises allowed (f a)) :
    OnlyRaises allowed (r >>= f) := by
  intro m e m' hm
  change Run.bind r f m = _ at hm
  unfold Run.bind at hm
  cases hr : r m with
  | done a m₁ =>
    rw [hr] at hm
    exact hf a _ _ _ hm
  | failed e₁ m₁ =>
    rw [hr] at hm
    cases hm
    exact h _ _ _ hr
  | broken | exhausted =>
    rw [hr] at hm
    cases hm

theorem ofExcept {x : Except Fault α} (h : ∀ fault, x = .error fault → allowed fault) :
    OnlyRaises allowed (Run.ofExcept x) := by
  cases x with
  | ok a => exact pure a
  | error fault => exact fail (h fault rfl)

theorem unary {op : UnaryOp} (h : ∀ kind, allowed (.unaryOperand op kind)) (v : Value) :
    OnlyRaises allowed (Run.ofExcept (op.apply v)) := by
  refine ofExcept fun fault heq => ?_
  unfold UnaryOp.apply at heq
  split at heq <;> cases heq
  exact h _

theorem binary {op : BinaryOp} (h : ∀ left right, allowed (.binaryOperands op left right))
    (v w : Value) : OnlyRaises allowed (Run.ofExcept (op.apply v w)) := by
  refine ofExcept fun fault heq => ?_
  unfold BinaryOp.apply at heq
  split at heq <;> cases heq
  exact h _ _

theorem readName {x : String} (h : allowed (.undefinedVariable x)) (id : Nat) :
    OnlyRaises allowed (Run.readName id x) := by
  intro m e m' hm
  unfold Run.readName at hm
  split at hm <;> split at hm <;> cases hm
  exact ⟨_, rfl, h⟩

theorem writeName {x : String} (h : allowed (.undefinedVariable x)) (id : Nat) (v : Value) :
    OnlyRaises allowed (Run.writeName id x v) := by
  intro m e m' hm
  unfold Run.writeName at hm
  split at hm <;> split at hm <;> cases hm
  exact ⟨_, rfl, h⟩

theorem printLine (h : ∀ reason, allowed (.outputFailed reason)) (text : String) :
    OnlyRaises allowed (Run.printLine text) := by
  intro m e m' hm
  unfold Run.printLine at hm
  split at hm <;> cases hm
  exact ⟨_, rfl, h _⟩

theorem writeProperty (i : Nat) (x : String) (v : Value) :
    OnlyRaises allowed (Run.writeProperty i x v) := by
  rintro _ _ _ ⟨⟩

theorem readProperty {x : String} (hkind : ∀ kind, allowed (.noProperties kind))
    (h : allowed (.undefinedProperty x)) (v : Value) : OnlyRaises allowed (Run.readProperty v x) := by
  cases v with
  | object i c =>
    intro m e m' hm
    unfold Run.readProperty at hm
    dsimp only at hm
    split at hm <;> cases hm
    exact ⟨_, rfl, h⟩
  | nil | bool | number | text | native | function | cls => exact fail (hkind _)

theorem readSuper {x : String} (h : allowed (.undefinedProperty x)) (id : Nat) :
    OnlyRaises allowed (Run.readSuper id x) := by
  intro m e m' hm
  unfold Run.readSuper at hm
  repeat' split at hm
  all_goals cases hm
  exact ⟨_, rfl, h⟩

theorem native (n : Native) (args : List Value) : OnlyRaises Fault.OfNative (Run.native n args) := by
  cases n with
  | clock => rintro _ _ _ ⟨⟩
  | str | type =>
    cases args with
    | nil => exact breach _
    | cons v vs => exact pure _
  | num =>
    cases args with
    | nil => exact breach _
    | cons v vs =>
      refine ofExcept fun fault h => ?_
      cases v with
      | number x => cases h
      | text s =>
        unfold Value.toNumber at h
        dsimp only at h
        split at h <;> cases h
        exact .notANumber s _
      | nil | bool | native | function | cls | object =>
        cases h
        exact .notNumeric _

/-- What the call of an initializer gives. -/
theorem initialized (env : Nat) : OnlyRaises allowed fun m => match m.store.getAt env 0 thisName with
    | .ok v => .done v m
    | .error _ => .broken .initWithoutThis := by
  intro m e m' hm
  dsimp only at hm
  split at hm <;> cases hm

theorem closure (frame : Nat) (d : FunctionDecl) (isInit : Bool) :
    OnlyRaises allowed (Run.closure frame d isInit) :=
  bind (onStore _) fun _ => pure _

theorem methods (frame : Nat) : ∀ (ds : List FunctionDecl) (table : NameTable Closure),
    OnlyRaises allowed (Run.methods frame ds table)
  | [], table => pure table
  | d :: ds, _ => bind (closure frame d _) fun _ => methods frame ds _

/-- The declaration of a class raises nothing, once its superclass has been found. -/
theorem declareClass (x : String) (parent : Option Class) (ds : List FunctionDecl) :
    OnlyRaises allowed (Run.declareClass x parent ds) := by
  refine bind currentFrame fun outer => ?_
  cases parent with
  | none =>
    exact bind (pure outer) fun frame => bind (methods frame ds _) fun _ => bind (onStore _) fun _ =>
      define x _
  | some c =>
    exact bind (onStore _) fun frame => bind (methods frame ds _) fun _ => bind (onStore _) fun _ =>
      define x _

end Run.OnlyRaises

/-! ### Runs and activations -/

/-- What the machine makes of a run and what becomes of it where the activations are known. A fault
without a place was raised by the innermost of those that are active, and is of a kind that it may
raise. One with a place was raised by an activation with that place, which is one of those that are
`known`. A run that is watched may end with the alarm instead. -/
inductive Accounts (known : Activation → Prop) (active : List Activation) (allowed : Fault → Prop) :
    Option Breach → Answer α → Verdict α → Prop
  | done {alarm : Option Breach} (a : α) (m : Machine) :
      Accounts known active allowed alarm (.done a m) (.done a m)
  | raised {alarm : Option Breach} {fault : Fault} {m : Machine} : allowed fault →
      Accounts known active allowed alarm (.failed ⟨fault, none⟩ m) (.failed ⟨fault, active⟩ m)
  | passed {alarm : Option Breach} {fault : Fault} {n : Activation} {outer : List Activation}
      {m : Machine} : n.Raises fault → known n →
      Accounts known active allowed alarm (.failed ⟨fault, some n.place⟩ m)
        (.failed ⟨fault, n :: outer⟩ m)
  | broken {alarm : Option Breach} (b : Breach) :
      Accounts known active allowed alarm (.broken b) (.broken b)
  | exhausted {alarm : Option Breach} : Accounts known active allowed alarm .exhausted .exhausted
  | alarmed (b : Breach) (y : Verdict α) : Accounts known active allowed (some b) (.broken b) y

def Accounted (alarm : Option Breach) (known : Activation → Prop) (active : List Activation)
    (allowed : Fault → Prop) (r : Run α) (t : Attributed α) : Prop :=
  ∀ m, Accounts known active allowed alarm (r m) (t active m)

namespace Accounted

variable {alarm : Option Breach} {known : Activation → Prop} {active : List Activation}
  {r r' : Run α} {t t' : Attributed α} {eval : Expr → Run Value}
  {call : Value → List Value → Run Value} {exec : Stmt → Run Flow} {aeval : Expr → Attributed Value}
  {acall : Value → List Value → Attributed Value} {aexec : Stmt → Attributed Flow}

theorem own (h : Run.OnlyRaises allowed r) : Accounted alarm known active allowed r (.own r) := by
  intro m
  unfold Attributed.own
  cases hr : r m with
  | done a m' => exact .done a m'
  | failed e m' =>
    obtain ⟨fault, rfl, hfault⟩ := h _ _ _ hr
    exact .raised hfault
  | broken b => exact .broken b
  | exhausted => exact .exhausted

theorem pure (a : α) : Accounted alarm known active allowed (Pure.pure a) (Pure.pure a) :=
  fun m => .done a m

theorem bind {f : α → Run β} {g : α → Attributed β} (h : Accounted alarm known active allowed r t)
    (hf : ∀ a, Accounted alarm known active allowed (f a) (g a)) :
    Accounted alarm known active allowed (r >>= f) (t >>= g) := by
  intro m
  show Accounts known active allowed alarm (Run.bind r f m) (Attributed.bind t g active m)
  unfold Run.bind Attributed.bind
  have hm := h m
  generalize r m = x at hm
  generalize t active m = y at hm
  cases hm with
  | done a m' => exact hf a m'
  | raised hfault => exact .raised hfault
  | passed hraises hknown => exact .passed hraises hknown
  | broken b => exact .broken b
  | exhausted => exact .exhausted
  | alarmed b => exact .alarmed b _

theorem ite {c : Prop} [Decidable c] (h : Accounted alarm known active allowed r t)
    (h' : Accounted alarm known active allowed r' t') :
    Accounted alarm known active allowed (if c then r else r') (if c then t else t') := by
  by_cases hc : c
  · rwa [if_pos hc, if_pos hc]
  · rwa [if_neg hc, if_neg hc]

theorem mapMachine {x : Answer α} {y : Verdict α} (h : Accounts known active allowed alarm x y)
    (f : Machine → Machine) :
    Accounts known active allowed alarm (x.mapMachine f) (y.mapMachine f) := by
  cases h with
  | done a m => exact .done a (f m)
  | raised hfault => exact .raised hfault
  | passed hraises hknown => exact .passed hraises hknown
  | broken b => exact .broken b
  | exhausted => exact .exhausted
  | alarmed b => exact .alarmed b _

theorem inFrame (frame : Nat) (h : Accounted alarm known active allowed r t) :
    Accounted alarm known active allowed (r.inFrame frame) (t.inFrame frame) :=
  fun m => mapMachine (h { m with frame }) _

theorem asCall (htooDeep : allowed .tooDeep) (h : Accounted alarm known active allowed r t) :
    Accounted alarm known active allowed r.asCall t.asCall := by
  intro m
  unfold Run.asCall Attributed.asCall
  by_cases hdeep : m.maxCalls ≤ m.calls
  · rw [if_pos hdeep, if_pos hdeep]
    exact .raised htooDeep
  · rw [if_neg hdeep, if_neg hdeep]
    exact mapMachine (h _) _

/-- **A fault gets the place of the activation that raised it,** on the way out of that activation,
and from then on it is only passed. -/
theorem inside {n : Activation} {span : Span} (hknown : known n)
    (h : Accounted alarm known (n :: active) allowed' r t)
    (hown : ∀ fault, allowed' fault → n.Raises fault ∧ n.place = span) :
    Accounted alarm known active allowed (r.located span) (t.inside n) := by
  intro m
  unfold Run.located Attributed.inside
  have hm := h m
  generalize r m = x at hm
  generalize t (n :: active) m = y at hm
  cases hm with
  | done a m' => exact .done a m'
  | raised hfault =>
    obtain ⟨hraises, rfl⟩ := hown _ hfault
    exact .passed hraises hknown
  | passed hraises hknown => exact .passed hraises hknown
  | broken b => exact .broken b
  | exhausted => exact .exhausted
  | alarmed b => exact .alarmed b _

theorem mono (h : Accounted alarm known active allowed' r t)
    (hallowed : ∀ fault, allowed' fault → allowed fault) :
    Accounted alarm known active allowed r t := by
  intro m
  have hm := h m
  generalize r m = x at hm
  generalize t active m = y at hm
  cases hm with
  | done a m' => exact .done a m'
  | raised hfault => exact .raised (hallowed _ hfault)
  | passed hraises hknown => exact .passed hraises hknown
  | broken b => exact .broken b
  | exhausted => exact .exhausted
  | alarmed b => exact .alarmed b _

/-! ### The rules -/

theorem each (he : ∀ e, Accounted alarm known active allowed (eval e) (aeval e)) (es : List Expr) :
    Accounted alarm known active allowed (Run.each eval es) (.each aeval es) := by
  induction es with
  | nil => exact pure []
  | cons e es ih => exact bind (he e) fun _ => bind ih fun _ => pure _

theorem sequence (hx : ∀ s, Accounted alarm known active allowed (exec s) (aexec s))
    (ss : List Stmt) :
    Accounted alarm known active allowed (Run.sequence exec ss) (.sequence aexec ss) := by
  induction ss with
  | nil => exact pure _
  | cons s ss ih =>
    refine bind (hx s) fun flow => ?_
    cases flow with
    | next => exact ih
    | returned v => exact pure _

theorem rounds {c : Run Value} {body : Run Flow} {ac : Attributed Value} {abody : Attributed Flow}
    (hc : Accounted alarm known active allowed c ac)
    (hb : Accounted alarm known active allowed body abody) (n : Nat) :
    Accounted alarm known active allowed (Run.rounds c body n) (.rounds ac abody n) := by
  induction n with
  | zero => exact own .exhausted
  | succ n ih =>
    refine bind hc fun v => ite (bind hb fun flow => ?_) (pure _)
    cases flow with
    | next => exact ih
    | returned v => exact pure _

theorem apply (hx : ∀ s, Accounted alarm known active allowed (exec s) (aexec s)) (c : Closure)
    (args : List Value) :
    Accounted alarm known active allowed (Run.apply exec c args) (.apply aexec c args) := by
  refine bind (own (.onStore _)) fun frame =>
    bind (inFrame frame (sequence hx c.decl.body)) fun flow => ite (own (.initialized c.env)) ?_
  cases flow with
  | next => exact pure _
  | returned v => exact pure _

theorem construct (hx : ∀ s, Accounted alarm known active allowed (exec s) (aexec s)) (c : Class)
    (args : List Value) :
    Accounted alarm known active allowed (Run.construct exec c args) (.construct aexec c args) := by
  refine bind (own (.onStore _)) fun ident => ?_
  cases c.init? with
  | none => exact pure _
  | some init =>
    exact bind (own (.onStore _)) fun bound => bind (apply hx bound args) fun _ => pure _

theorem invoke (hx : ∀ s, Accounted alarm known active Fault.OfCall (exec s) (aexec s))
    (callee : Value) (args : List Value) :
    Accounted alarm known active Fault.OfCall (Run.invoke exec callee args)
      (.invoke aexec callee args) := by
  cases callee with
  | native n => exact own ((Run.OnlyRaises.native n args).mono fun _ => .native)
  | function c => exact apply hx c args
  | cls c => exact construct hx c args
  | nil | bool | number | text | object => exact own (.fail (.notCallable _))

theorem callStep (hx : ∀ s, Accounted alarm known active Fault.OfCall (exec s) (aexec s))
    (callee : Value) (args : List Value) :
    Accounted alarm known active Fault.OfCall (Run.callStep exec callee args)
      (.callStep aexec callee args) := by
  unfold Run.callStep Attributed.callStep
  cases callee.arity? with
  | none => exact own (.fail (.notCallable _))
  | some arity => exact ite (own (.fail (.wrongArity ..))) (asCall .tooDeep (invoke hx callee args))

theorem optional (he : ∀ e, Accounted alarm known active allowed (eval e) (aeval e)) :
    ∀ e : Option Expr,
    Accounted alarm known active allowed (Run.optional eval e) (.optional aeval e)
  | none => pure _
  | some e => he e

/-- **An expression:** what its own rule raises, and what a call raises that it makes, is its own. -/
theorem exprStep (he : ∀ active allowed e, Accounted alarm known active allowed (eval e) (aeval e))
    (hc : ∀ active v vs, Accounted alarm known active Fault.OfCall (call v vs) (acall v vs))
    {e : Expr} (hknown : known (.eval e)) :
    Accounted alarm known active allowed (Run.exprStep eval call e) (.exprStep aeval acall e) := by
  have hown : ∀ fault, (Activation.eval e).Raises fault →
      (Activation.eval e).Raises fault ∧ (Activation.eval e).place = e.span := fun _ h => ⟨h, rfl⟩
  refine inside hknown ?_ hown
  have he := he (.eval e :: active) (Activation.eval e).Raises
  cases e with
  | literal _ l => exact pure _
  | group _ e => exact he e
  | «variable» mark x => exact own (.readName (.variable mark x) _)
  | assign mark x e =>
    exact bind (he e) fun v => bind (own (.writeName (.assign mark x e) _ v)) fun _ => pure v
  | unary mark op e => exact bind (he e) fun v => own (.unary (.unary mark op e) v)
  | binary mark op l r =>
    exact bind (he l) fun v => bind (he r) fun w => own (.binary (.binary mark op l r) v w)
  | logical _ op l r => exact bind (he l) fun v => ite (pure v) (he r)
  | call mark callee args =>
    exact bind (he callee) fun v => bind (each he args) fun vs =>
      (hc _ v vs).mono fun fault h => .call mark callee args h
  | get mark e x =>
    exact bind (he e) fun v => own (.readProperty (.getOf mark e x) (.get mark e x) v)
  | set mark e x value =>
    refine bind (he e) fun v => ?_
    cases v with
    | object i c =>
      exact bind (he value) fun v => bind (own (.writeProperty i x v)) fun _ => pure v
    | nil | bool | number | text | native | function | cls => exact own (.fail (.set mark e x value _))
  | this mark => exact own (.readName (.this mark) _)
  | super mark x => exact own (.readSuper (.super mark x) _)

theorem superclass {span : Span} {name : Declared} {u : NameUse} {methods : List FunctionDecl}
    (he : ∀ active allowed e, Accounted alarm known active allowed (eval e) (aeval e))
    (hknown : known (.exec (.classDecl span name (some u) methods))) :
    Accounted alarm known (.exec (.classDecl span name (some u) methods) :: active) (fun _ => False)
      (Run.superclass eval (some u)) (.superclass aeval (some u)) := by
  refine bind (he _ _ u.expr) fun v => ?_
  cases v with
  | cls c => exact pure _
  | nil | bool | number | text | native | function | object =>
    exact fun m => .passed (.classDecl span name u methods _) hknown

/-- **A statement:** what its own rule raises is its own. -/
theorem stmtStep (he : ∀ active allowed e, Accounted alarm known active allowed (eval e) (aeval e))
    (hx : ∀ active allowed s, Accounted alarm known active allowed (exec s) (aexec s)) (limit : Nat)
    {s : Stmt} (hknown : known (.exec s)) :
    Accounted alarm known active allowed (Run.stmtStep eval exec limit s)
      (.stmtStep aeval aexec limit s) := by
  have hnone : ∀ (fault : Fault), False → (Activation.exec s).Raises fault ∧
      (Activation.exec s).place = s.span := fun _ h => h.elim
  have he' := he (.exec s :: active) (fun _ => False)
  have hx' := hx (.exec s :: active) (fun _ => False)
  cases s with
  | expression _ e => exact inside hknown (bind (he' e) fun _ => pure _) hnone
  | print span e =>
    have hown : ∀ fault, (Activation.exec (.print span e)).Raises fault →
        (Activation.exec (.print span e)).Raises fault ∧ (Activation.exec (.print span e)).place = span :=
      fun _ h => ⟨h, rfl⟩
    exact inside hknown (bind (he _ _ e) fun v => bind (own (.printLine (.print span e) _))
      fun _ => pure _) hown
  | var _ x init =>
    exact inside hknown (bind (optional he' init) fun v => bind (own (.define x v)) fun _ => pure _)
      hnone
  | block _ body =>
    exact inside hknown (bind (own .currentFrame) fun outer => bind (own (.onStore _)) fun frame =>
      inFrame frame (sequence hx' body)) hnone
  | branch _ c yes no =>
    refine inside hknown (bind (he' c) fun v => ite (hx' yes) ?_) hnone
    cases no with
    | none => exact pure _
    | some s => exact hx' s
  | loop _ c body => exact inside hknown (rounds (he' c) (hx' body) limit) hnone
  | function _ d =>
    exact inside hknown (bind (own .currentFrame) fun frame =>
      bind (own (.closure frame d false)) fun c => bind (own (.define d.name (.function c))) fun _ => pure _) hnone
  | «return» _ value => exact inside hknown (bind (optional he' value) fun v => pure _) hnone
  | classDecl _ name parent methods =>
    refine inside hknown (bind ?_ fun c => bind (own (.declareClass name.name c methods))
      fun _ => pure _) hnone
    cases parent with
    | none => exact pure _
    | some u => exact superclass he hknown

end Accounted

/-- **Evaluation raises what it raises where the activations are known.** -/
theorem evaluation_accounted (f : Nat) :
    (∀ active allowed e,
      Accounted none (fun _ => True) active allowed (eval f e) (attributedEval f e)) ∧
    (∀ active v vs,
      Accounted none (fun _ => True) active Fault.OfCall (call f v vs) (attributedCall f v vs)) ∧
    ∀ active allowed s,
      Accounted none (fun _ => True) active allowed (exec f s) (attributedExec f s) := by
  induction f with
  | zero =>
    exact ⟨fun _ _ _ _ => .exhausted, fun _ _ _ _ => .exhausted, fun _ _ _ _ => .exhausted⟩
  | succ f ih =>
    obtain ⟨he, hc, hx⟩ := ih
    refine ⟨fun active allowed e => ?_, fun active v vs => ?_, fun active allowed s => ?_⟩
    · have heq : eval (f + 1) e = Run.exprStep (eval f) (call f) e :=
        funext fun m => by simp only [eval, staged_eq]
      rw [heq, attributedEval]
      exact Accounted.exprStep he hc trivial
    · have heq : call (f + 1) v vs = Run.callStep (exec f) v vs :=
        funext fun m => by simp only [call, staged_eq]
      rw [heq, attributedCall]
      exact Accounted.callStep (hx active _) v vs
    · have heq : exec (f + 1) s = Run.stmtStep (eval f) (exec f) f s :=
        funext fun m => by simp only [exec, staged_eq]
      rw [heq, attributedExec]
      exact Accounted.stmtStep he hx f trivial

/-- **A runtime error points at the node that failed.** Running a program on any machine ends as it
does where the activations are known, and an error of it carries the fault that was raised, unchanged,
and the place of the activation that was innermost then: the place of an expression or statement
of which the own rule raises that fault. -/
theorem Machine.errors_point_at_innermost (f : Nat) (p : Program) (m : Machine) :
    m.execute f p = (m.attributedExecute f p).answer ∧
    ∀ e m', m.execute f p = .failed e m' → ∃ n outer,
      m.attributedExecute f p = .failed ⟨e.fault, n :: outer⟩ m' ∧ n.Raises e.fault ∧
        e.span = some n.place := by
  have hrun := Accounted.sequence
    ((evaluation_accounted f).2.2 [] fun _ => False) p.body { m with depths := m.depths.merge p.depths }
  unfold execute attributedExecute execAll
  generalize Run.sequence (exec f) p.body _ = x at hrun
  generalize Attributed.sequence (attributedExec f) p.body [] _ = y at hrun
  cases hrun with
  | done => exact ⟨rfl, by rintro _ _ ⟨⟩⟩
  | raised hfalse => exact hfalse.elim
  | passed hraises =>
    refine ⟨rfl, ?_⟩
    rintro _ _ ⟨⟩
    exact ⟨_, _, rfl, hraises, rfl⟩
  | broken => exact ⟨rfl, by rintro _ _ ⟨⟩⟩
  | exhausted => exact ⟨rfl, by rintro _ _ ⟨⟩⟩

/-- The place of the error that a run ended with. -/
def Answer.span? : Answer α → Option Span
  | .failed e _ => e.span
  | _ => none

/-- A function of the language fails in an inherited initializer. The error points at its call, not at
that of the class. -/
theorem Machine.errors_point_at_innermost_initializer :
    let p : Program := ⟨((CharStream.ofString
      "class A { init() { num(nil); } } class B < A {} B();").parse 0).trees, {}⟩
    ∃ e m' n outer, (Machine.initial fun _ => 0).execute 99 p = .failed e m' ∧
      (Machine.initial fun _ => 0).attributedExecute 99 p = .failed ⟨e.fault, n :: outer⟩ m' ∧
      n.Raises e.fault ∧ e.span = some n.place ∧ n.place = ⟨19, 27⟩ := by
  intro p
  have hspan : ((Machine.initial fun _ => 0).execute 99 p).span? = some ⟨19, 27⟩ := by decide +kernel
  cases hx : (Machine.initial fun _ => 0).execute 99 p with
  | failed e m' =>
    rw [hx] at hspan
    obtain ⟨n, outer, hverdict, hraises, hplace⟩ := (errors_point_at_innermost 99 p _).2 e m' hx
    exact ⟨e, m', n, outer, rfl, hverdict, hraises, hplace, Option.some.inj (hplace.symm.trans hspan)⟩
  | done | broken | exhausted =>
    rw [hx] at hspan
    cases hspan

end ClassScript
