/-
# How the bodies of functions start

A call binds the names of the parameters to the arguments one by one, as long as there are both, and
a name that is bound twice keeps the later value. Nothing of this shows if there are as many
arguments as parameters, and no two parameters have one name: then the frame that the body starts
in has each parameter with its own argument, and nothing else (`starts_of_call`). The number of
arguments is compared before a call is made, with that of the method that sets up objects if a class
is called, and this is the method that is called for it then.

Evaluation that looks at this whenever a body starts (`checkedEval`) answers like evaluation, but for
the alarm (`checked_below`).

Key definitions: `Starts`, `checkedApply`, `Value.Takes`.
Key theorems: `checkedCallStep_eq`, `call_notCallable_iff`, `call_wrongArity_iff`.
-/
import Mathlib.Data.List.Nodup
import ClassScript.Proofs.Machine.Attribution
import ClassScript.Proofs.Machine.Below

namespace ClassScript

/-! ### The body of a function -/

/-- No two parameters have one name. -/
def Closure.Distinct (c : Closure) : Prop := (c.decl.params.map Declared.name).Nodup

/-- The body of `c` starts on the machine `m`, and the store was `before` when its frame was made. There
are as many arguments as parameters, no two parameters have one name, and the frame is a new one
inside that of the function, binds each parameter to its argument, and binds nothing else. -/
structure Starts (before : Store) (c : Closure) (args : List Value) (m : Machine) : Prop where
  count : args.length = c.decl.params.length
  distinct : c.Distinct
  fresh : m.frame = before.frames.size
  one : m.store.frames.size = before.frames.size + 1
  kept : ∀ φ < before.frames.size, m.store.frames[φ]? = before.frames[φ]?
  inside : m.store.parent? m.frame = some c.env
  binds : ∀ x v, m.store.lookup m.frame x = some v ↔
    ∃ i : Nat, (c.decl.params.map Declared.name)[i]? = some x ∧ args[i]? = some v

open Classical in
/-- Runs the body of a closure if it starts as it should, and raises the alarm if it does not. -/
noncomputable def checkedBody (alarm : Breach) (before : Store) (c : Closure) (args : List Value)
    (body : Run Flow) : Run Flow := fun m =>
  if Starts before c args m then body m else .broken alarm

/-- Calls a closure, and looks at how its body starts. -/
noncomputable def checkedApply (alarm : Breach) (exec : Stmt → Run Flow) (c : Closure)
    (args : List Value) : Run Value := fun before =>
  (do
    let frame ← Run.newFrame c.env (Run.parameters c args)
    let flow ← Run.inFrame frame
      (checkedBody alarm before.store c args (Run.sequence exec c.decl.body))
    if c.isInit then fun m =>
      match m.store.getAt c.env 0 thisName with
      | .ok v => .done v m
      | .error _ => .broken .initWithoutThis
    else
      match flow with
      | .returned v => pure v
      | .next => pure .nil : Run Value) before

noncomputable def checkedConstruct (alarm : Breach) (exec : Stmt → Run Flow) (c : Class)
    (args : List Value) : Run Value := do
  let ident ← Run.onStore Store.newObject
  let object := Value.object ident c
  match c.init? with
  | none => pure object
  | some init =>
    let bound ← Run.onStore fun s => s.bind init object
    let _ ← checkedApply alarm exec bound args
    pure object

noncomputable def checkedInvoke (alarm : Breach) (exec : Stmt → Run Flow) (callee : Value)
    (args : List Value) : Run Value :=
  match callee with
  | .native n => Run.native n args
  | .function c => checkedApply alarm exec c args
  | .cls c => checkedConstruct alarm exec c args
  | v => Run.fail (.notCallable v.kind)

noncomputable def checkedCallStep (alarm : Breach) (exec : Stmt → Run Flow) (callee : Value)
    (args : List Value) : Run Value :=
  match callee.arity? with
  | none => Run.fail (.notCallable callee.kind)
  | some arity =>
    if args.length ≠ arity then Run.fail (.wrongArity callee.display arity args.length)
    else Run.asCall (checkedInvoke alarm exec callee args)

mutual

/-- Evaluates an expression, and looks at each body that starts on the way. -/
noncomputable def checkedEval (alarm : Breach) : Nat → Expr → Run Value
  | 0, _ => Run.exhausted
  | f + 1, e => Run.exprStep (checkedEval alarm f) (checkedCall alarm f) e

/-- Calls a value, and looks at each body that starts on the way. -/
noncomputable def checkedCall (alarm : Breach) : Nat → Value → List Value → Run Value
  | 0, _, _ => Run.exhausted
  | f + 1, callee, args => checkedCallStep alarm (checkedExec alarm f) callee args

/-- Runs a statement, and looks at each body that starts on the way. -/
noncomputable def checkedExec (alarm : Breach) : Nat → Stmt → Run Flow
  | 0, _ => Run.exhausted
  | f + 1, s => Run.stmtStep (checkedEval alarm f) (checkedExec alarm f) f s

end

/-- Runs the statements of a program, and looks at each body that starts on the way. -/
noncomputable def checkedAll (alarm : Breach) (f : Nat) (program : List Stmt) : Run Flow :=
  Run.sequence (checkedExec alarm f) program

variable {alarm : Breach} {exec : Stmt → Run Flow} {callee : Value} {args : List Value}

/-! ### How a body starts -/

/-- A table of different names with a value each. -/
theorem NameTable.find?_ofList_zip {α : Type} {names : List String} {values : List α}
    (hnames : names.Nodup) (hlength : names.length = values.length) (x : String) (a : α) :
    (NameTable.ofList (names.zip values)).find? x = some a ↔
      ∃ i : Nat, names[i]? = some x ∧ values[i]? = some a := by
  have hkeys : (names.zip values).map Prod.fst = names := List.map_fst_zip (Nat.le_of_eq hlength)
  have hmem : ∀ a, (x, a) ∈ names.zip values ↔ ∃ i : Nat, names[i]? = some x ∧ values[i]? = some a := by
    intro a
    simp only [List.mem_iff_getElem?, List.getElem?_zip_eq_some]
  rw [← hmem]
  refine ⟨NameTable.mem_of_find?_ofList, fun h => ?_⟩
  have hcontains : (NameTable.ofList (names.zip values)).contains x = true :=
    (NameTable.contains_ofList _ x).mpr (List.mem_map_of_mem h)
  obtain ⟨b, hb⟩ := Option.isSome_iff_exists.mp hcontains
  have hnodup : ((names.zip values).map Prod.fst).Nodup := hkeys.symm ▸ hnames
  have heq := List.inj_on_of_nodup_map hnodup (NameTable.mem_of_find?_ofList hb) h rfl
  rw [hb, (Prod.mk.inj heq).2]

/-- **A body starts as it should,** with as many arguments as parameters that have different names. -/
theorem starts_of_call {c : Closure} (hc : c.Distinct) (hargs : args.length = c.arity) (m : Machine) :
    Starts m.store c args { m with
      store := (m.store.newFrame (some c.env) (Run.parameters c args)).2
      frame := m.store.frames.size } := by
  refine ⟨hargs, hc, rfl, ?_, fun φ hφ => ?_, ?_, fun x v => ?_⟩
  · simp [Store.newFrame]
  · simp [Store.newFrame, Array.getElem?_push, Nat.ne_of_lt hφ]
  · rw [Store.parent?_newFrame, if_pos rfl]
  · rw [Store.lookup_newFrame, if_pos rfl, Run.parameters,
      NameTable.find?_ofList_zip hc (by rw [List.length_map]; exact hargs.symm)]

theorem checkedApply_eq {c : Closure} (hc : c.Distinct) (hargs : args.length = c.arity) :
    checkedApply alarm exec c args = Run.apply exec c args := by
  funext m
  let made : Machine :=
    { m with store := (m.store.newFrame (some c.env) (Run.parameters c args)).2 }
  have hbody : Run.inFrame m.store.frames.size
      (checkedBody alarm m.store c args (Run.sequence exec c.decl.body)) made =
      Run.inFrame m.store.frames.size (Run.sequence exec c.decl.body) made := by
    unfold Run.inFrame checkedBody
    dsimp only
    rw [if_pos (starts_of_call hc hargs m)]
  have hrest : ∀ rest : Flow → Run Value, Run.bind (Run.inFrame m.store.frames.size
      (checkedBody alarm m.store c args (Run.sequence exec c.decl.body))) rest made =
      Run.bind (Run.inFrame m.store.frames.size (Run.sequence exec c.decl.body)) rest made := by
    intro rest
    unfold Run.bind
    rw [hbody]
  exact hrest _

/-- The function that a call of the value runs, if any, has parameters with different names. -/
def Value.Distinct : Value → Prop
  | .function c => c.Distinct
  | .cls c => ∀ init ∈ c.init?, init.Distinct
  | _ => True

theorem checkedConstruct_eq {c : Class} (hc : ∀ init ∈ c.init?, init.Distinct)
    (hargs : args.length = c.arity) :
    checkedConstruct alarm exec c args = Run.construct exec c args := by
  unfold checkedConstruct Run.construct
  unfold Class.arity at hargs
  cases hinit : c.init? with
  | none => rfl
  | some init =>
    rw [hinit] at hargs
    have hbound : ∀ (s : Store) (object : Value), checkedApply alarm exec (s.bind init object).1 args =
        Run.apply exec (s.bind init object).1 args :=
      fun s object => checkedApply_eq (hc init hinit) hargs
    funext m
    show Run.bind (checkedApply alarm exec (Store.bind _ init _).1 args) _ _ =
      Run.bind (Run.apply exec (Store.bind _ init _).1 args) _ _
    rw [hbound]

/-- **A call looks at nothing but bodies that start as they should,** if the parameters have different
names. -/
theorem checkedCallStep_eq (hc : callee.Distinct) (args : List Value) :
    checkedCallStep alarm exec callee args = Run.callStep exec callee args := by
  unfold checkedCallStep Run.callStep
  cases harity : callee.arity? with
  | none => rfl
  | some arity =>
    dsimp only
    by_cases hargs : args.length = arity
    · rw [if_neg (not_not_intro hargs), if_neg (not_not_intro hargs)]
      congr 1
      cases callee with
      | nil | bool | number | text | native | object => rfl
      | function c => exact checkedApply_eq hc (hargs.trans (Option.some.inj harity).symm)
      | cls c => exact checkedConstruct_eq hc (hargs.trans (Option.some.inj harity).symm)
    · rw [if_pos hargs, if_pos hargs]

/-! ### The alarm -/

section

variable {exec' : Stmt → Run Flow}

theorem checkedApply_below (hx : ∀ s, Below (.broken alarm) (exec s) (exec' s)) (c : Closure)
    (args : List Value) :
    Below (.broken alarm) (checkedApply alarm exec c args) (Run.apply exec' c args) := by
  intro m
  have hbody : Below (.broken alarm)
      (checkedBody alarm m.store c args (Run.sequence exec c.decl.body))
      (Run.sequence exec' c.decl.body) := by
    intro m'
    unfold checkedBody
    split_ifs
    · exact sequence_below hx c.decl.body m'
    · exact .inl rfl
  unfold checkedApply Run.apply
  refine Below.bind (.refl _ _) (fun frame => ?_) m
  exact (hbody.inFrame frame).bind fun _ => .refl _ _

theorem checkedCallStep_below (hx : ∀ s, Below (.broken alarm) (exec s) (exec' s)) (callee : Value)
    (args : List Value) :
    Below (.broken alarm) (checkedCallStep alarm exec callee args) (Run.callStep exec' callee args) := by
  unfold checkedCallStep Run.callStep
  cases callee.arity? with
  | none => exact .refl _ _
  | some arity =>
    refine .ite (.refl _ _) (Below.asCall ?_)
    cases callee with
    | nil | bool | number | text | native | object => exact .refl _ _
    | function c => exact checkedApply_below hx c args
    | cls c =>
      refine (Below.refl _ _).bind fun ident => ?_
      cases c.init? with
      | none => exact .refl _ _
      | some init =>
        exact (Below.refl _ _).bind fun bound => (checkedApply_below hx bound args).bind fun _ =>
          .refl _ _

/-- **Looking at bodies that start changes no answer but for the alarm.** -/
theorem checked_below (alarm : Breach) (f : Nat) :
    (∀ e, Below (.broken alarm) (checkedEval alarm f e) (eval f e)) ∧
    (∀ v vs, Below (.broken alarm) (checkedCall alarm f v vs) (call f v vs)) ∧
    ∀ s, Below (.broken alarm) (checkedExec alarm f s) (ClassScript.exec f s) := by
  induction f with
  | zero => exact ⟨fun _ _ => .inr rfl, fun _ _ _ => .inr rfl, fun _ _ => .inr rfl⟩
  | succ f ih =>
    obtain ⟨he, hc, hx⟩ := ih
    refine ⟨fun e m => ?_, fun v vs m => ?_, fun s m => ?_⟩
    · simp only [checkedEval, eval, staged_eq]
      exact exprStep_below he hc e m
    · simp only [checkedCall, call, staged_eq]
      exact checkedCallStep_below hx v vs m
    · simp only [checkedExec, ClassScript.exec, staged_eq]
      exact stmtStep_below he hx (.inl rfl) s m

end

/-! ### Calls that are refused -/

/-- The value can be called, with so many arguments. A class takes as many as the nearest method
that sets up objects, among its own and those that it inherits, or none if there is no such method. -/
inductive Value.Takes : Value → Nat → Prop
  | native (n : Native) : Takes (.native n) n.arity
  | function (c : Closure) : Takes (.function c) c.decl.params.length
  | init {c : Class} {nearer further : List ClassBody} {body : ClassBody} {init : Closure} :
      c.chain = nearer ++ body :: further → (∀ b ∈ nearer, b.methods.find? initName = none) →
      body.methods.find? initName = some init → Takes (.cls c) init.decl.params.length
  | plain {c : Class} : (∀ b ∈ c.chain, b.methods.find? initName = none) → Takes (.cls c) 0

theorem Value.arity?_eq_some_iff {v : Value} {n : Nat} : v.arity? = some n ↔ v.Takes n := by
  constructor
  · intro h
    cases v with
    | nil | bool | number | text | object => cases h
    | native m =>
      cases h
      exact .native m
    | function c =>
      cases h
      exact .function c
    | cls c =>
      cases h
      unfold Class.arity
      cases hinit : c.init? with
      | none => exact .plain (List.findSome?_eq_none_iff.mp hinit)
      | some init =>
        obtain ⟨nearer, body, further, hchain, hbody, hnearer⟩ := List.findSome?_eq_some_iff.mp hinit
        exact .init hchain hnearer hbody
  · intro h
    cases h with
    | native | function => rfl
    | @init c nearer further body init hchain hnearer hbody =>
      have hinit : c.init? = some init :=
        List.findSome?_eq_some_iff.mpr ⟨nearer, body, further, hchain, hbody, hnearer⟩
      simp [Value.arity?, Class.arity, hinit, Closure.arity]
    | @plain c hnone =>
      have hinit : c.init? = none := List.findSome?_eq_none_iff.mpr hnone
      simp [Value.arity?, Class.arity, hinit]

variable {f : Nat} {m m' : Machine} {fault : Fault}

/-- A run that raises nothing itself fails with faults that have a place. -/
theorem Accounted.placed {α : Type} {alarm : Option Breach} {known : Activation → Prop}
    {active : List Activation} {r : Run α} {t : Attributed α}
    (h : Accounted alarm known active (fun _ => False) r t) : r m ≠ .failed ⟨fault, none⟩ m' := by
  intro hr
  have hm := h m
  rw [hr] at hm
  generalize t active m = y at hm
  cases hm with
  | raised hfalse => exact hfalse

/-- What fails inside of a call has a place, unless the function of the language fails that is called. -/
theorem invoke_unplaced {n : Nat} (harity : callee.arity? = some n)
    (h : Run.invoke (ClassScript.exec f) callee args m = .failed ⟨fault, none⟩ m') :
    fault.OfNative := by
  have hx := (evaluation_accounted f).2.2 [] fun _ => False
  cases callee with
  | nil | bool | number | text | object => cases harity
  | native k =>
    obtain ⟨_, heq, hnative⟩ := Run.OnlyRaises.native k args _ _ _ h
    cases heq
    exact hnative
  | function c => exact absurd h (Accounted.apply hx c args).placed
  | cls c => exact absurd h (Accounted.construct hx c args).placed

/-- **How a call fails itself:** the value cannot be called, or takes another number of arguments, or
calls nest too deep, or the function of the language fails that is called. In the first three cases
nothing has happened yet. -/
theorem call_unplaced (h : call (f + 1) callee args m = .failed ⟨fault, none⟩ m') :
    ((∀ n, ¬ callee.Takes n) ∧ fault = .notCallable callee.kind ∧ m' = m) ∨
    (∃ n, callee.Takes n ∧ args.length ≠ n ∧
      fault = .wrongArity callee.display n args.length ∧ m' = m) ∨
    fault = .tooDeep ∧ m' = m ∨ fault.OfNative := by
  simp only [call, staged_eq, Run.callStep] at h
  cases harity : callee.arity? with
  | none =>
    rw [harity] at h
    cases h
    exact .inl ⟨fun n hn => by simp [Value.arity?_eq_some_iff.mpr hn] at harity, rfl, rfl⟩
  | some n =>
    rw [harity] at h
    dsimp only at h
    by_cases hargs : args.length = n
    · rw [if_neg (not_not_intro hargs)] at h
      unfold Run.asCall at h
      split_ifs at h with hdeep
      · cases h
        exact .inr (.inr (.inl ⟨rfl, rfl⟩))
      · refine .inr (.inr (.inr ?_))
        cases hinvoke : Run.invoke (ClassScript.exec f) callee args { m with calls := m.calls + 1 } with
        | failed e m₁ =>
          rw [hinvoke] at h
          cases h
          exact invoke_unplaced harity hinvoke
        | done | broken | exhausted =>
          rw [hinvoke] at h
          cases h
    · rw [if_pos hargs] at h
      cases h
      exact .inr (.inl ⟨n, Value.arity?_eq_some_iff.mp harity, hargs, rfl, rfl⟩)

/-- **A call fails because the value cannot be called exactly if it cannot be,** and before anything
has happened. -/
theorem call_notCallable_iff {kind : Kind} :
    call (f + 1) callee args m = .failed ⟨.notCallable kind, none⟩ m' ↔
      (∀ n, ¬ callee.Takes n) ∧ kind = callee.kind ∧ m' = m := by
  constructor
  · intro h
    rcases call_unplaced h with ⟨hnone, hfault, hm⟩ | ⟨_, _, _, hfault, _⟩ | ⟨hfault, _⟩ | hnative
    · exact ⟨hnone, Fault.notCallable.inj hfault, hm⟩
    · cases hfault
    · cases hfault
    · cases hnative
  · rintro ⟨hnone, rfl, rfl⟩
    have harity : callee.arity? = none := by
      by_contra hsome
      obtain ⟨n, hn⟩ := Option.ne_none_iff_exists'.mp hsome
      exact hnone n (Value.arity?_eq_some_iff.mp hn)
    simp only [call, staged_eq, Run.callStep, harity]
    rfl

/-- **A call fails because of the number of arguments exactly if the value takes another one,** and
before anything has happened. -/
theorem call_wrongArity_iff {shown : String} {n given : Nat} :
    call (f + 1) callee args m = .failed ⟨.wrongArity shown n given, none⟩ m' ↔
      callee.Takes n ∧ args.length ≠ n ∧ shown = callee.display ∧ given = args.length ∧ m' = m := by
  constructor
  · intro h
    rcases call_unplaced h with ⟨_, hfault, _⟩ | ⟨k, htakes, hne, hfault, hm⟩ | ⟨hfault, _⟩ | hnative
    · cases hfault
    · cases hfault
      exact ⟨htakes, hne, rfl, rfl, hm⟩
    · cases hfault
    · cases hnative
  · rintro ⟨htakes, hne, rfl, rfl, rfl⟩
    simp only [call, staged_eq, Run.callStep, Value.arity?_eq_some_iff.mpr htakes, if_pos hne]
    rfl

end ClassScript
