/-
# Runs without loops

A run takes more fuel the deeper it nests, and a loop takes some for each of its rounds. Code
without loops takes no more than its size, up to the calls that it makes: a call jumps to the body
of another function, which may be larger. But calls nest only so deep. So with room for `n` more
calls the fuel is bounded in `n` and then in the size of the node (`screened_lasts`).

That holds of evaluation that refuses to call functions with loops, or with bodies that are larger
than those of the programs (`screenedEval`). Refusing changes no answer but for the alarm
(`screened_below`).
-/
import ClassScript.Proofs.Machine.Steady
import ClassScript.Proofs.Scope.Visit

namespace ClassScript

open Scope

/-! ### Code without loops -/

mutual

/-- The statement contains no loop, in the functions that it declares neither. -/
def Stmt.loopless : Stmt → Bool
  | .expression _ _ | .print _ _ | .var _ _ _ | .return _ _ => true
  | .block _ body => Stmt.allLoopless body
  | .branch _ _ yes no => yes.loopless && Stmt.optionalLoopless no
  | .loop _ _ _ => false
  | .function _ decl => decl.loopless
  | .classDecl _ _ _ methods => FunctionDecl.allLoopless methods

def Stmt.allLoopless : List Stmt → Bool
  | [] => true
  | s :: ss => s.loopless && Stmt.allLoopless ss

def Stmt.optionalLoopless : Option Stmt → Bool
  | none => true
  | some s => s.loopless

def FunctionDecl.loopless : FunctionDecl → Bool
  | .mk _ _ body => Stmt.allLoopless body

def FunctionDecl.allLoopless : List FunctionDecl → Bool
  | [] => true
  | d :: ds => d.loopless && FunctionDecl.allLoopless ds

end

/-- The program contains neither a `while` nor a `for` statement. -/
def Program.loopless (p : Program) : Bool := Stmt.allLoopless p.body

def Scope.Node.loopless : Node → Bool
  | .expr _ | .exprs _ => true
  | .stmt s => s.loopless
  | .stmts ss => Stmt.allLoopless ss
  | .function d => d.loopless
  | .methods ds => FunctionDecl.allLoopless ds

theorem Scope.children_loopless {c c' : Context} {n n' : Node} (h : (c', n') ∈ c.children n)
    (hn : n.loopless = true) : n'.loopless = true := by
  cases n with
  | expr e => cases e <;> simp [Context.children] at h <;> grind [Node.loopless]
  | exprs es => cases es <;> simp [Context.children] at h; grind [Node.loopless]
  | stmt s =>
    cases s with
    | expression | print | block | loop | function =>
      simp [Context.children] at h
      grind [Node.loopless, Stmt.loopless]
    | var _ _ init => cases init <;> simp [Context.children] at h; grind [Node.loopless]
    | «return» _ value => cases value <;> simp [Context.children] at h; grind [Node.loopless]
    | branch _ _ _ no =>
      cases no <;> simp [Context.children] at h <;>
        grind [Node.loopless, Stmt.loopless, Stmt.optionalLoopless]
    | classDecl _ _ parent =>
      cases parent <;> simp [Context.children] at h <;> grind [Node.loopless, Stmt.loopless]
  | stmts ss =>
    cases ss <;> simp [Context.children] at h
    grind [Node.loopless, Stmt.allLoopless]
  | function d =>
    cases d
    simp [Context.children] at h
    grind [Node.loopless, FunctionDecl.loopless]
  | methods ds =>
    cases ds <;> simp [Context.children] at h
    grind [Node.loopless, FunctionDecl.allLoopless]

/-- **What a program without loops contains has none.** -/
theorem Scope.Comes.loopless {x y : Context × Node} (h : Comes x y) (hx : x.2.loopless = true) :
    y.2.loopless = true := by
  induction h with
  | refl => exact hx
  | tail _ hmem ih => exact children_loopless hmem ih

theorem Stmt.loopless_of_mem {s : Stmt} {ss : List Stmt} (h : Stmt.allLoopless ss = true)
    (hs : s ∈ ss) : s.loopless = true := by
  induction ss with
  | nil => cases hs
  | cons t ts ih =>
    rw [Stmt.allLoopless, Bool.and_eq_true] at h
    rcases List.mem_cons.mp hs with rfl | hs
    · exact h.1
    · exact ih h.2 hs

/-! ### Screened evaluation -/

/-- The code of a function has no loops, and its size is at most `B`. -/
def FunctionDecl.Short (B : Nat) (d : FunctionDecl) : Prop := d.loopless = true ∧ sizeOf d ≤ B

/-- What a call of the value runs has no loops, and its size is at most `B`. -/
def Value.Short (B : Nat) : Value → Prop
  | .function c => c.decl.Short B
  | .cls c => ∀ init ∈ c.init?, init.decl.Short B
  | _ => True

open Classical in
mutual

/-- Evaluates an expression, and raises the alarm in front of a call of code that is not short. -/
noncomputable def screenedEval (alarm : Breach) (B : Nat) : Nat → Expr → Run Value
  | 0, _ => Run.exhausted
  | f + 1, e => Run.exprStep (screenedEval alarm B f) (screenedCall alarm B f) e

/-- Calls a value if the code that this runs is short. -/
noncomputable def screenedCall (alarm : Breach) (B : Nat) : Nat → Value → List Value → Run Value
  | 0, _, _ => Run.exhausted
  | f + 1, callee, args =>
    if callee.Short B then Run.callStep (screenedExec alarm B f) callee args
    else Run.breach alarm

/-- Runs a statement, and raises the alarm in front of a call of code that is not short. -/
noncomputable def screenedExec (alarm : Breach) (B : Nat) : Nat → Stmt → Run Flow
  | 0, _ => Run.exhausted
  | f + 1, s => Run.stmtStep (screenedEval alarm B f) (screenedExec alarm B f) f s

end

variable {alarm : Breach} {B : Nat}

/-- **Screening changes no answer but for the alarm.** -/
theorem screened_below (alarm : Breach) (B f : Nat) :
    (∀ e, Below (.broken alarm) (screenedEval alarm B f e) (eval f e)) ∧
    (∀ v vs, Below (.broken alarm) (screenedCall alarm B f v vs) (call f v vs)) ∧
    ∀ s, Below (.broken alarm) (screenedExec alarm B f s) (exec f s) := by
  induction f with
  | zero => exact ⟨fun _ _ => .inr rfl, fun _ _ _ => .inr rfl, fun _ _ => .inr rfl⟩
  | succ f ih =>
    obtain ⟨he, hc, hx⟩ := ih
    refine ⟨fun e m => ?_, fun v vs m => ?_, fun s m => ?_⟩
    · simp only [screenedEval, eval, staged_eq]
      exact exprStep_below he hc e m
    · simp only [screenedCall, call, staged_eq]
      by_cases hv : v.Short B
      · rw [if_pos hv]
        exact callStep_below hx v vs m
      · rw [if_neg hv]
        exact .inl rfl
    · simp only [screenedExec, exec, staged_eq]
      exact stmtStep_below he hx (.inl rfl) s m

theorem screened_steady (alarm : Breach) (B f : Nat) :
    (∀ e, Steady (screenedEval alarm B f e)) ∧ (∀ v vs, Steady (screenedCall alarm B f v vs)) ∧
    ∀ s, Steady (screenedExec alarm B f s) := by
  induction f with
  | zero => exact ⟨fun _ _ => .exhausted, fun _ _ _ => .exhausted, fun _ _ => .exhausted⟩
  | succ f ih =>
    obtain ⟨he, hc, hx⟩ := ih
    refine ⟨fun e => ?_, fun v vs => ?_, fun s => ?_⟩
    · rw [screenedEval]
      exact exprStep_steady he hc e
    · rw [screenedCall]
      by_cases hv : v.Short B
      · rw [if_pos hv]
        exact callStep_steady hx v vs
      · rw [if_neg hv]
        exact fun _ => .broken alarm
    · rw [screenedExec]
      exact stmtStep_steady he hx f s

/-! ### Runs that do not spend their fuel -/

/-- The run does not spend its fuel where calls may nest at most `n` deeper. -/
def Lasts {α : Type} (n : Nat) (r : Run α) : Prop :=
  ∀ m, m.maxCalls ≤ m.calls + n → r m ≠ .exhausted

variable {α β : Type} {n : Nat} {r : Run α}

namespace Lasts

theorem pure (a : α) : Lasts n (Pure.pure a : Run α) := fun _ _ h => by cases h

theorem fail (fault : Fault) : Lasts n (Run.fail fault : Run α) := fun _ _ h => by cases h

/-- **One run after the other.** As the first one keeps the number of active calls, the second one has
room for as many more. -/
theorem bind {f : α → Run β} (h : Lasts n r) (hr : Steady r) (hf : ∀ a, Lasts n (f a)) :
    Lasts n (r >>= f) := by
  intro m hm
  have hlasts := h m hm
  have hkeeps := hr m
  show Run.bind r f m ≠ _
  unfold Run.bind
  generalize r m = x at hlasts hkeeps
  cases hkeeps with
  | done hkept => exact hf _ _ (by rw [hkept.maxCalls, hkept.calls]; exact hm)
  | failed | broken => simp
  | exhausted => exact absurd rfl hlasts

theorem located (h : Lasts n r) (span : Span) : Lasts n (r.located span) := by
  intro m hm
  have hlasts := h m hm
  unfold Run.located
  cases hr : r m with
  | done | failed | broken => simp
  | exhausted => exact absurd hr hlasts

theorem inFrame (h : Lasts n r) (frame : Nat) : Lasts n (r.inFrame frame) := by
  intro m hm
  have hlasts := h { m with frame } hm
  unfold Run.inFrame
  dsimp only
  cases hr : r { m with frame } with
  | done | failed | broken => simp [Answer.mapMachine]
  | exhausted => exact absurd hr hlasts

/-- **A call leaves room for fewer calls.** Without room it fails. -/
theorem asCall (h : ∀ k < n, Lasts k r) : Lasts n r.asCall := by
  intro m hm
  unfold Run.asCall
  by_cases hdeep : m.maxCalls ≤ m.calls
  · simp [hdeep]
  · rw [if_neg hdeep]
    have hlasts := h (n - 1) (by omega) { m with calls := m.calls + 1 } (by dsimp only; omega)
    cases hr : r { m with calls := m.calls + 1 } with
    | done | failed | broken => simp [Answer.mapMachine]
    | exhausted => exact absurd hr hlasts

theorem ite {c : Prop} [Decidable c] {p : Run α} (h : Lasts n r) (hp : Lasts n p) :
    Lasts n (if c then r else p) := by
  by_cases hc : c
  · rwa [if_pos hc]
  · rwa [if_neg hc]

/-! ### Single steps -/

theorem onStore (f : Store → α × Store) : Lasts n (Run.onStore f) := fun _ _ h => by cases h

/-- What follows a change of the store knows where its value comes from. -/
theorem afterStore {f : Store → α × Store} {g : α → Run β} (h : ∀ s, Lasts n (g (f s).1)) :
    Lasts n (Run.onStore f >>= g) := fun m hm => h m.store _ hm

theorem define (x : String) (v : Value) : Lasts n (Run.define x v) := fun _ _ h => by cases h

theorem currentFrame : Lasts n Run.currentFrame := fun _ _ h => by cases h

theorem ofExcept (x : Except Fault α) : Lasts n (Run.ofExcept x) := by
  cases x with
  | ok a => exact .pure a
  | error fault => exact .fail fault

theorem readName (id : Nat) (x : String) : Lasts n (Run.readName id x) := by
  intro m _
  unfold Run.readName
  split
  · split <;> simp
  · split <;> simp

theorem writeName (id : Nat) (x : String) (v : Value) : Lasts n (Run.writeName id x v) := by
  intro m _
  unfold Run.writeName
  split
  · split <;> simp
  · split <;> simp

theorem readSuper (id : Nat) (x : String) : Lasts n (Run.readSuper id x) := by
  intro m _
  unfold Run.readSuper
  split
  · simp
  · split
    · simp
    · split
      · simp
      · split
        · simp
        · split <;> simp
        · simp
    · simp

theorem printLine (text : String) : Lasts n (Run.printLine text) := by
  intro m _
  unfold Run.printLine
  split <;> simp

theorem readProperty (v : Value) (x : String) : Lasts n (Run.readProperty v x) := by
  intro m _
  unfold Run.readProperty
  split
  · split <;> simp
  · simp

theorem writeProperty (i : Nat) (x : String) (v : Value) : Lasts n (Run.writeProperty i x v) :=
  fun _ _ h => by cases h

theorem native (f : Native) (args : List Value) : Lasts n (Run.native f args) := by
  cases f with
  | clock =>
    intro m _ h
    cases h
  | str | type =>
    cases args with
    | nil => exact fun _ _ h => by cases h
    | cons v vs => exact .pure _
  | num =>
    cases args with
    | nil => exact fun _ _ h => by cases h
    | cons v vs => exact .ofExcept _

end Lasts

/-! ### One level of the recursion -/

section

variable {eval : Expr → Run Value} {call : Value → List Value → Run Value} {exec : Stmt → Run Flow}

theorem each_lasts (hs : ∀ e, Steady (eval e)) : ∀ {es : List Expr}, (∀ e ∈ es, Lasts n (eval e)) →
    Lasts n (Run.each eval es)
  | [], _ => .pure _
  | e :: es, he =>
    (he e (.head _)).bind (hs e) fun _ =>
      (each_lasts hs fun e h => he e (.tail _ h)).bind (each_steady hs es) fun _ => .pure _

theorem sequence_lasts (hs : ∀ s, Steady (exec s)) : ∀ {ss : List Stmt},
    (∀ s ∈ ss, Lasts n (exec s)) → Lasts n (Run.sequence exec ss)
  | [], _ => .pure _
  | s :: ss, hx => by
    refine (hx s (.head _)).bind (hs s) fun flow => ?_
    cases flow with
    | next => exact sequence_lasts hs fun s h => hx s (.tail _ h)
    | returned v => exact .pure _

theorem optional_lasts {o : Option Expr} (he : ∀ e ∈ o, Lasts n (eval e)) :
    Lasts n (Run.optional eval o) := by
  cases o with
  | none => exact .pure _
  | some e => exact he e rfl

theorem closure_lasts (frame : Nat) (d : FunctionDecl) (isInit : Bool) :
    Lasts n (Run.closure frame d isInit) :=
  (Lasts.onStore _).bind (.onStore _) fun _ => .pure _

theorem methods_lasts (frame : Nat) (ds : List FunctionDecl) :
    ∀ table : NameTable Closure, Lasts n (Run.methods frame ds table) := by
  induction ds with
  | nil => exact fun _ => .pure _
  | cons d ds ih =>
    exact fun _ => (closure_lasts frame d _).bind (closure_steady frame d _) fun _ => ih _

theorem declareClass_lasts (x : String) (parent : Option Class) (ds : List FunctionDecl) :
    Lasts n (Run.declareClass x parent ds) := by
  refine Lasts.currentFrame.bind .currentFrame fun outer => ?_
  have hrest : ∀ frame (inherited : List ClassBody), Lasts n (do
      let table ← Run.methods frame ds .empty
      let ident ← Run.newIdent
      Run.define x (.cls ⟨⟨ident, x, table⟩, inherited⟩)) := fun frame inherited =>
    (methods_lasts frame ds _).bind (methods_steady frame ds _) fun _ =>
      (Lasts.onStore _).bind (.onStore _) fun _ => .define x _
  cases parent with
  | none => exact (Lasts.pure outer).bind (.pure outer) fun frame => hrest frame _
  | some c => exact (Lasts.onStore _).bind (.onStore _) fun frame => hrest frame _

/-- **An expression lasts** if smaller ones and calls do. -/
theorem exprStep_lasts {e : Expr} (hs : ∀ e, Steady (eval e))
    (he : ∀ e', sizeOf e' < sizeOf e → Lasts n (eval e')) (hc : ∀ v vs, Lasts n (call v vs)) :
    Lasts n (Run.exprStep eval call e) := by
  refine .located ?_ e.span
  cases e with
  | literal _ l => exact .pure _
  | group _ e => exact he e (by simp +arith)
  | «variable» m x => exact .readName m.id x
  | assign m x e =>
    exact (he e (by simp +arith)).bind (hs e) fun v =>
      (Lasts.writeName m.id x v).bind (.writeName m.id x v) fun _ => .pure v
  | unary _ op e => exact (he e (by simp +arith)).bind (hs e) fun _ => .ofExcept _
  | binary _ op l r =>
    exact (he l (by simp +arith)).bind (hs l) fun _ =>
      (he r (by simp +arith)).bind (hs r) fun _ => .ofExcept _
  | logical _ op l r =>
    exact (he l (by simp +arith)).bind (hs l) fun v => .ite (.pure v) (he r (by simp +arith))
  | call _ callee args =>
    have hargs : ∀ e ∈ args, Lasts n (eval e) := fun e hmem => he e (by
      have hlt := List.sizeOf_lt_of_mem hmem
      simp
      omega)
    exact (he callee (by simp +arith)).bind (hs callee) fun v =>
      (each_lasts hs hargs).bind (each_steady hs args) fun vs => hc v vs
  | get _ e x => exact (he e (by simp +arith)).bind (hs e) fun v => .readProperty v x
  | set _ e x value =>
    refine (he e (by simp +arith)).bind (hs e) fun v => ?_
    cases v with
    | object i c =>
      exact (he value (by simp +arith)).bind (hs value) fun v =>
        (Lasts.writeProperty i x v).bind (.writeProperty i x v) fun _ => .pure v
    | nil | bool | number | text | native | function | cls => exact .fail _
  | this m => exact .readName m.id thisName
  | super m x => exact .readSuper m.id x

/-- **A statement without loops lasts** if smaller expressions and statements do. -/
theorem stmtStep_lasts {s : Stmt} (hse : ∀ e, Steady (eval e)) (hsx : ∀ s, Steady (exec s))
    (he : ∀ e, sizeOf e < sizeOf s → Lasts n (eval e))
    (hx : ∀ s', sizeOf s' < sizeOf s → s'.loopless = true → Lasts n (exec s'))
    (hloopless : s.loopless = true) (limit : Nat) : Lasts n (Run.stmtStep eval exec limit s) := by
  refine .located ?_ s.span
  cases s with
  | expression _ e => exact (he e (by simp +arith)).bind (hse e) fun _ => .pure _
  | print _ e =>
    exact (he e (by simp +arith)).bind (hse e) fun v =>
      (Lasts.printLine v.display).bind (.printLine v.display) fun _ => .pure _
  | var _ x init =>
    have hinit : Lasts n (Run.optional eval init) := optional_lasts fun e hmem => he e (by
      obtain rfl : init = some e := hmem
      simp +arith)
    exact hinit.bind (optional_steady hse init) fun v =>
      (Lasts.define x v).bind (.define x v) fun _ => .pure _
  | block _ body =>
    have hbody : Lasts n (Run.sequence exec body) := sequence_lasts hsx fun s hmem => hx s (by
      have hlt := List.sizeOf_lt_of_mem hmem
      simp +arith
      omega) (Stmt.loopless_of_mem hloopless hmem)
    exact Lasts.currentFrame.bind .currentFrame fun outer =>
      (Lasts.onStore _).bind (.onStore _) fun frame => hbody.inFrame frame
  | branch _ c yes no =>
    rw [Stmt.loopless, Bool.and_eq_true] at hloopless
    refine (he c (by simp +arith)).bind (hse c) fun v => .ite (hx yes (by simp +arith) hloopless.1) ?_
    cases no with
    | none => exact .pure _
    | some s => exact hx s (by simp +arith) hloopless.2
  | loop => cases hloopless
  | function _ d =>
    exact Lasts.currentFrame.bind .currentFrame fun frame =>
      (closure_lasts frame d false).bind (closure_steady frame d false) fun c =>
        (Lasts.define d.name (.function c)).bind (.define d.name (.function c)) fun _ => .pure _
  | «return» _ value =>
    have hvalue : Lasts n (Run.optional eval value) := optional_lasts fun e hmem => he e (by
      obtain rfl : value = some e := hmem
      simp +arith)
    exact hvalue.bind (optional_steady hse value) fun _ => .pure _
  | classDecl _ name parent ds =>
    have hparent : Lasts n (Run.superclass eval parent) := by
      cases parent with
      | none => exact .pure _
      | some u =>
        refine (he u.expr (by cases u; simp [NameUse.expr]; omega)).bind (hse u.expr) fun v => ?_
        cases v with
        | cls c => exact .pure _
        | nil | bool | number | text | native | function | object => exact (Lasts.fail _).located _
    exact hparent.bind (superclass_steady hse parent) fun c =>
      (declareClass_lasts name.name c ds).bind (declareClass_steady name.name c ds) fun _ => .pure _

theorem apply_lasts (hs : ∀ s, Steady (exec s))
    (hx : ∀ s, sizeOf s < B → s.loopless = true → Lasts n (exec s)) {c : Closure}
    (hc : c.decl.Short B) (args : List Value) : Lasts n (Run.apply exec c args) := by
  have hbody : Lasts n (Run.sequence exec c.decl.body) := by
    obtain ⟨hloopless, hsize⟩ := hc
    cases hd : c.decl with
    | mk name params body =>
      rw [hd] at hloopless hsize
      refine sequence_lasts hs fun s hmem => hx s ?_ (Stmt.loopless_of_mem hloopless hmem)
      have hlt := List.sizeOf_lt_of_mem hmem
      simp only [FunctionDecl.mk.sizeOf_spec] at hsize
      simp only [FunctionDecl.body] at hlt
      omega
  refine (Lasts.onStore _).bind (.onStore _) fun frame =>
    (hbody.inFrame frame).bind ((sequence_steady hs c.decl.body).inFrame frame) fun flow =>
      .ite (fun m _ => ?_) ?_
  · cases m.store.getAt c.env 0 thisName <;> simp
  · cases flow with
    | next | returned => exact .pure _

/-- **A call of short code lasts** if the statements of short code do, with room for fewer calls. -/
theorem callStep_lasts (hs : ∀ s, Steady (exec s))
    (hx : ∀ k < n, ∀ s, sizeOf s < B → s.loopless = true → Lasts k (exec s)) {callee : Value}
    (hcallee : callee.Short B) (args : List Value) : Lasts n (Run.callStep exec callee args) := by
  have hinvoke : ∀ k < n, Lasts k (Run.invoke exec callee args) := by
    intro k hk
    cases callee with
    | native f => exact .native f args
    | function c => exact apply_lasts hs (hx k hk) hcallee args
    | cls c =>
      refine (Lasts.onStore _).bind (.onStore _) fun ident => ?_
      cases hinit : c.init? with
      | none => exact .pure _
      | some init =>
        refine .afterStore fun store => ?_
        have hbound : (store.bind init (.object ident c)).1.decl.Short B := hcallee init hinit
        exact (apply_lasts hs (hx k hk) hbound args).bind (apply_steady hs _ args) fun _ => .pure _
    | nil | bool | number | text | object => exact .fail _
  unfold Run.callStep
  cases callee.arity? with
  | none => exact .fail _
  | some arity => exact .ite (.fail _) (.asCall hinvoke)

end

/-! ### The whole recursion -/

/-- An expression is larger than its mark. -/
theorem Expr.one_lt_sizeOf (e : Expr) : 1 < sizeOf e := by
  have hmark : 0 < sizeOf e.mark := by
    cases e.mark
    simp +arith
  cases e <;> simp only [Expr.mark] at hmark <;> simp <;> omega

/-- **Without loops, a run is bounded.** A node takes fuel for its size, and for each call that may
nest in it as much as the largest body that can be called, and one more. -/
theorem screened_lasts (alarm : Breach) (B f : Nat) : ∀ n,
    (∀ e, n * (B + 1) + sizeOf e ≤ f → Lasts n (screenedEval alarm B f e)) ∧
    (∀ v vs, n * (B + 1) < f → Lasts n (screenedCall alarm B f v vs)) ∧
    ∀ s, n * (B + 1) + sizeOf s ≤ f → s.loopless = true → Lasts n (screenedExec alarm B f s) := by
  induction f with
  | zero =>
    refine fun n => ⟨fun e hf => ?_, fun v vs hf => ?_, fun s hf => ?_⟩
    · cases e <;> simp at hf
    · omega
    · cases s <;> simp at hf
  | succ f ih =>
    obtain ⟨hse, hsc, hsx⟩ := screened_steady alarm B f
    refine fun n => ⟨fun e hf => ?_, fun v vs hf => ?_, fun s hf hloopless => ?_⟩
    · rw [screenedEval]
      have hsize := e.one_lt_sizeOf
      exact exprStep_lasts hse (fun e' hlt => (ih n).1 e' (by omega)) fun v vs =>
        (ih n).2.1 v vs (by omega)
    · rw [screenedCall]
      by_cases hv : v.Short B
      · rw [if_pos hv]
        refine callStep_lasts hsx (fun k hk s hlt hs => (ih k).2.2 s ?_ hs) hv vs
        have hmul : k * (B + 1) + (B + 1) ≤ n * (B + 1) := by
          rw [← Nat.succ_mul]
          exact Nat.mul_le_mul_right _ hk
        omega
      · rw [if_neg hv]
        exact fun _ _ h => by cases h
    · rw [screenedExec]
      exact stmtStep_lasts hse hsx (fun e hlt => (ih n).1 e (by omega))
        (fun s' hlt hs => (ih n).2.2 s' (by omega) hs) hloopless f

end ClassScript
