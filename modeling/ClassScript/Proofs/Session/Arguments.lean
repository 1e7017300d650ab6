/-
# Arguments reach their parameters

In a session that can be reached, what is called is code that has passed the analysis
(`Value.distinct_of_alike`), and there two parameters of a function have different names. So every
body that starts in a run starts in a new frame with each parameter and its own argument, and
nothing else: evaluation that looks at this agrees with lexical scoping like evaluation itself, and
never raises the alarm (`checked_agrees`).

What would go wrong without it is refused before: a value that cannot be called, and a number of
arguments that is not that of the parameters. A class takes the arguments of the method that sets up
its objects, which may be inherited.

Key theorem: `arguments_reach_parameters`.
-/
import ClassScript.Proofs.Machine.Entry
import ClassScript.Proofs.Session.Mirror

namespace ClassScript

open Lexical Scope

variable {ps : List Program} {W : World} {m : Machine} {σ : State} {held : List Value} {s : Session}

/-! ### What is called -/

/-- Code of a program without faults has different names for different parameters. -/
theorem Lexical.SameCode.distinct {c : Closure} {c' : Closure Env}
    {around : Context → List (NameTable Readiness) → List (List String) → Prop}
    (hm : Match ps W m σ) (h : SameCode W c c' around) : c.Distinct := by
  obtain ⟨p, hp, k, -, -, hv, -⟩ := h.linked
  exact (hv.accepted (hm.built p hp)).params_nodup

theorem Value.distinct_of_alike {v : Value} {v' : Value Env} (hm : Match ps W m σ)
    (h : Alike W v v') : v.Distinct := by
  cases h with
  | nil | bool | number | text | native | object => trivial
  | function hc => exact SameCode.distinct hm hc
  | cls hc =>
    intro init hinit
    obtain ⟨init', hcode⟩ := hc.init_alike hinit
    exact SameCode.distinct hm hcode

/-- **Evaluation that looks at the bodies that start agrees with lexical scoping, too.** -/
theorem checked_agrees (alarm : Breach) (f : Nat) :
    EvalAgrees ps (checkedEval alarm f) (Lexical.eval f) ∧
    CallAgrees ps (checkedCall alarm f) (Lexical.call f) ∧
    ExecAgrees ps (checkedExec alarm f) (Lexical.exec f) := by
  induction f with
  | zero => exact ⟨fun _ _ => .exhausted, fun _ _ _ => .exhausted, fun _ _ _ => .exhausted⟩
  | succ f ih =>
    obtain ⟨he, hc, hx⟩ := ih
    refine ⟨?_, ?_, ?_⟩
    · intro W m σ ρ c e hm ha
      rw [checkedEval]
      exact exprStep_agrees he hc hm ha
    · intro W m σ v v' vs vs' hm hv hvs
      rw [checkedCall, checkedCallStep_eq (Value.distinct_of_alike hm hv)]
      exact callStep_agrees hx hm hv hvs
    · intro W m σ ρ c s hm ha hexact
      rw [checkedExec]
      exact stmtStep_agrees he hx f hm ha hexact

/-! ### Sessions -/

/-- **Arguments reach their parameters.** In a session that can be reached, a run of any text and a
call of any value that the host holds or that a global name has are what they are when every body
that starts is looked at: no alarm is ever raised. Any call fails by itself because the value cannot
be called exactly if it cannot be, and because of the number of arguments exactly if the value takes
another one. Then nothing has happened to the machine. -/
theorem arguments_reach_parameters (h : Reached ps held s) (alarm : Breach) (f : Nat) :
    (∀ (text : CharStream) p, Program.ofParse (text.parse s.nextId) = .ok p →
      let m := { s.machine with depths := s.machine.depths.merge p.depths }
      checkedAll alarm f p.body m = execAll f p.body m ∧ ∀ b, execAll f p.body m ≠ .broken b) ∧
    (∀ callee args, (callee ∈ held ∨ ∃ x, s.machine.global? x = some callee) →
      (∀ a ∈ args, a ∈ held) →
      checkedCall alarm f callee args s.machine = call f callee args s.machine ∧
        ∀ b, call f callee args s.machine ≠ .broken b) ∧
    ∀ callee args m m',
      (∀ kind, call (f + 1) callee args m = .failed ⟨.notCallable kind, none⟩ m' ↔
        (∀ n, ¬ callee.Takes n) ∧ kind = callee.kind ∧ m' = m) ∧
      ∀ shown n given, call (f + 1) callee args m = .failed ⟨.wrongArity shown n given, none⟩ m' ↔
        callee.Takes n ∧ args.length ≠ n ∧ shown = callee.display ∧ given = args.length ∧ m' = m := by
  obtain ⟨W, σ, ht, hheld⟩ := h.tracked
  obtain ⟨-, hcall, hexec⟩ := checked_below alarm f
  refine ⟨fun text p hp => ?_, fun callee args hcallee hargs => ?_, fun callee args m m' => ?_⟩
  · have hagree := ht.sequence hp (checked_agrees alarm f).2.2
    exact (sequence_below hexec p.body).eq_of_unbroken hagree.unbroken
  · have halike : ∃ callee', Alike W callee callee' := by
      rcases hcallee with hmem | ⟨x, hx⟩
      · exact hheld callee hmem
      · exact ht.global hx
    obtain ⟨callee', halike⟩ := halike
    obtain ⟨args', hargs'⟩ := alike_list fun a ha => hheld a (hargs a ha)
    have hagree := (checked_agrees alarm f).2.1 ht.holds halike hargs'
    exact (hcall callee args).eq_of_unbroken hagree.unbroken
  · exact ⟨fun kind => call_notCallable_iff, fun shown n given => call_wrongArity_iff⟩

/-- The method that sets up the objects of a class is inherited, and takes two arguments. Text cannot be
called. -/
theorem arguments_reach_parameters_inherited :
    let text := CharStream.ofString
      "class A { init(a, b) { this.a = a; this.b = b; } sum() { return this.a + this.b; } } class B < A {}"
    let s := ((Session.initial fun _ => 0).run 99 text).2
    ∃ p, Program.ofParse ((CharStream.ofString "print B(1, 2).sum();").parse s.nextId) = .ok p ∧
      let m := { s.machine with depths := s.machine.depths.merge p.depths }
      (checkedAll .pastGlobals 99 p.body m = execAll 99 p.body m ∧
        ∀ b, execAll 99 p.body m ≠ .broken b) ∧
      call 100 (.text "B") [] m = .failed ⟨.notCallable .string, none⟩ m := by
  intro text s
  have h : Reached ((Session.initial fun _ => 0).ended 99 text []) [] s :=
    .step (.start fun _ => 0) (.run 99 text)
  have hbuilt : (Program.ofParse
      ((CharStream.ofString "print B(1, 2).sum();").parse s.nextId)).toOption.isSome = true := by
    decide +kernel
  cases hp : Program.ofParse ((CharStream.ofString "print B(1, 2).sum();").parse s.nextId) with
  | error e =>
    rw [hp] at hbuilt
    cases hbuilt
  | ok p =>
    obtain ⟨hrun, -, hrefused⟩ := arguments_reach_parameters h .pastGlobals 99
    refine ⟨p, rfl, hrun _ p hp, ((hrefused (.text "B") [] _ _).1 _).mpr ⟨?_, rfl, rfl⟩⟩
    rintro n ⟨⟩

end ClassScript
