/-
# Only loops run forever

In a session that can be reached, what is called is code of a program that was run
(`Value.short_of_alike`). So if no program has a loop, no call is refused that runs code with
loops, or code larger than all programs together: screened evaluation agrees with lexical scoping
like evaluation itself, and is the same (`Below.eq_of_unbroken`). But it spends only so much fuel.

Key theorem: `only_loops_run_forever`.
-/
import Mathlib.Algebra.Order.BigOperators.Group.List
import Mathlib.Algebra.Order.Group.Nat
import ClassScript.Proofs.Machine.Loopless
import ClassScript.Proofs.Session.Mirror

namespace ClassScript

open Lexical Scope

variable {ps : List Program} {p : Program} {W : World} {m : Machine} {σ : State}
  {held : List Value} {s : Session} {alarm : Breach} {B : Nat}

/-- Programs without loops, each of which is no larger than `B`. -/
def LooplessIn (B : Nat) (ps : List Program) : Prop :=
  ∀ p ∈ ps, p.loopless = true ∧ sizeOf p.body ≤ B

theorem exists_looplessIn (h : ∀ p ∈ ps, p.loopless = true) : ∃ B, LooplessIn B ps :=
  ⟨(ps.map fun p => sizeOf p.body).sum, fun p hp =>
    ⟨h p hp, List.le_sum_of_mem (List.mem_map_of_mem hp)⟩⟩

/-! ### What is called -/

theorem Lexical.SameCode.short {c : Closure} {c' : Closure Env}
    {around : Context → List (NameTable Readiness) → List (List String) → Prop}
    (hm : Match ps W m σ) (hb : LooplessIn B ps) (hc : SameCode W c c' around) : c.decl.Short B := by
  obtain ⟨p, hp, k, -, -, hv, -, -⟩ := hc.linked
  obtain ⟨hloopless, hsize⟩ := hb p (hm.texts ▸ hp)
  have hle := Comes.size hv
  simp only [Node.function.sizeOf_spec, Node.stmts.sizeOf_spec] at hle
  exact ⟨Comes.loopless hv hloopless, by omega⟩

/-- **What is called is code of a program,** so it is short if the programs are. -/
theorem Value.short_of_alike {v : Value} {v' : Value Env} (hm : Match ps W m σ)
    (hb : LooplessIn B ps) (hv : Alike W v v') : v.Short B := by
  cases hv with
  | nil | bool | number | text | native | object => trivial
  | function hc => exact SameCode.short hm hb hc
  | cls hc =>
    intro init hinit
    obtain ⟨init', hcode⟩ := hc.init_alike hinit
    exact SameCode.short hm hb hcode

/-- **Screened evaluation agrees with lexical scoping, too:** no call is refused. -/
theorem screened_agrees (hb : LooplessIn B ps) (alarm : Breach) (f : Nat) :
    EvalAgrees ps (screenedEval alarm B f) (Lexical.eval f) ∧
    CallAgrees ps (screenedCall alarm B f) (Lexical.call f) ∧
    ExecAgrees ps (screenedExec alarm B f) (Lexical.exec f) := by
  induction f with
  | zero => exact ⟨fun _ _ => .exhausted, fun _ _ _ => .exhausted, fun _ _ _ => .exhausted⟩
  | succ f ih =>
    obtain ⟨he, hc, hx⟩ := ih
    refine ⟨?_, ?_, ?_⟩
    · intro W m σ ρ c e hm ha
      rw [screenedEval]
      exact exprStep_agrees he hc hm ha
    · intro W m σ v v' vs vs' hm hv hvs
      rw [screenedCall, if_pos (Value.short_of_alike hm hb hv)]
      exact callStep_agrees hx hm hv hvs
    · intro W m σ ρ c s hm ha hexact
      rw [screenedExec]
      exact stmtStep_agrees he hx f hm ha hexact

/-! ### Runs that end -/

/-- With enough fuel a program without loops does not spend it. -/
theorem Tracks.program_lasts (h : Tracks ps s W σ) {text : CharStream}
    (hp : Program.ofParse (text.parse s.nextId) = .ok p) (hb : LooplessIn B (p :: ps)) {f : Nat}
    (hf : s.machine.maxCalls * (B + 1) + B ≤ f) :
    execAll f p.body { s.machine with depths := s.machine.depths.merge p.depths } ≠ .exhausted := by
  have hagree := h.sequence hp (screened_agrees hb .pastGlobals f).2.2
  have heq := ((sequence_below (screened_below .pastGlobals B f).2.2 p.body).eq_of_unbroken
    hagree.unbroken).1
  have hlasts : Lasts s.machine.maxCalls (Run.sequence (screenedExec .pastGlobals B f) p.body) := by
    obtain ⟨hloopless, hsize⟩ := hb p (.head _)
    refine sequence_lasts (screened_steady .pastGlobals B f).2.2 fun t ht => ?_
    have hlt := List.sizeOf_lt_of_mem ht
    exact (screened_lasts .pastGlobals B f _).2.2 t (by omega) (Stmt.loopless_of_mem hloopless ht)
  unfold execAll
  rw [← heq]
  exact hlasts _ (Nat.le_add_left _ _)

/-- With enough fuel a call does not spend it. -/
theorem Tracks.call_lasts (h : Tracks ps s W σ) (hb : LooplessIn B ps) {v : Value} {v' : Value Env}
    {vs : List Value} {vs' : List (Value Env)} (hv : Alike W v v')
    (hvs : List.Forall₂ (Alike W) vs vs') {f : Nat} (hf : s.machine.maxCalls * (B + 1) < f) :
    ClassScript.call f v vs s.machine ≠ .exhausted := by
  have hagree := (screened_agrees hb .pastGlobals f).2.1 h.holds hv hvs
  have heq := (((screened_below .pastGlobals B f).2.1 v vs).eq_of_unbroken hagree.unbroken).1
  rw [← heq]
  exact (screened_lasts .pastGlobals B f _).2.1 v vs hf _ (Nat.le_add_left _ _)

/-- A call that was run to an end is run to the same end with more fuel. -/
theorem Session.call_fuel {f f' : Nat} (h : f ≤ f') (s : Session) (x : String) (args : List Value)
    (hend : (s.call f x args).1 ≠ .exhausted) : s.call f' x args = s.call f x args := by
  unfold Session.call at hend ⊢
  cases hcallee : s.machine.global? x with
  | none => rfl
  | some callee =>
    rw [hcallee] at hend
    dsimp only at hend ⊢
    rcases (fuel_below h).2.1 callee args s.machine with hm | hm
    · rw [hm] at hend
      exact absurd rfl hend
    · rw [hm]

/-- The step ends: with a result or a runtime error, or as the text cannot be built. -/
inductive Outcome.Ends {α : Type} : Outcome α → Prop
  | ok (value : α) : Ends (.ok value)
  | unbuilt (error : BuildError) : Ends (.unbuilt error)
  | failed (error : RuntimeError) : Ends (.failed error)

theorem Outcome.ends_of {α : Type} {o : Outcome α} (hbroken : ∀ b, o ≠ .broken b)
    (hexhausted : o ≠ .exhausted) : o.Ends := by
  cases o with
  | ok v => exact .ok v
  | unbuilt e => exact .unbuilt e
  | failed e => exact .failed e
  | broken b => exact absurd rfl (hbroken b)
  | exhausted => exact absurd rfl hexhausted

/-- **Only loops run forever.** In a session that can be reached and has run no program with a loop,
a text without loops ends, and so does a call of any global name with values that the host holds,
however functions, methods and classes call each other and however deep calls may nest. The fuel
that this takes does not change the outcome. -/
theorem only_loops_run_forever (h : Reached ps held s) (hps : ∀ p ∈ ps, p.loopless = true) :
    (∀ text : CharStream,
      (∀ p, Program.ofParse (text.parse s.nextId) = .ok p → p.loopless = true) →
      ∃ f₀, (s.run f₀ text).1.Ends ∧ ∀ f ≥ f₀, s.run f text = s.run f₀ text) ∧
    ∀ x args, (∀ a ∈ args, a ∈ held) →
      ∃ f₀, (s.call f₀ x args).1.Ends ∧ ∀ f ≥ f₀, s.call f x args = s.call f₀ x args := by
  obtain ⟨W, σ, ht, hheld⟩ := h.tracked
  refine ⟨fun text htext => ?_, fun x args hargs => ?_⟩
  · have hexhausted : ∃ f₀, (s.run f₀ text).1 ≠ .exhausted := by
      cases hp : Program.ofParse (text.parse s.nextId) with
      | error e => exact ⟨0, by simp [Session.run, hp]⟩
      | ok p =>
        have hall : ∀ q ∈ p :: ps, q.loopless = true :=
          List.forall_mem_cons.mpr ⟨htext p hp, hps⟩
        obtain ⟨B, hb⟩ := exists_looplessIn hall
        refine ⟨s.machine.maxCalls * (B + 1) + B, ?_⟩
        have hlasts := ht.program_lasts hp hb (Nat.le_refl _)
        simp only [Session.run, hp, Session.execute, Machine.execute]
        generalize execAll _ p.body _ = x at hlasts
        cases x with
        | done | failed | broken => simp [Session.conclude]
        | exhausted => exact absurd rfl hlasts
    obtain ⟨f₀, hf₀⟩ := hexhausted
    exact ⟨f₀, Outcome.ends_of (ht.run f₀ text).unbroken hf₀,
      fun f hle => Session.run_fuel hle s text hf₀⟩
  · have hexhausted : ∃ f₀, (s.call f₀ x args).1 ≠ .exhausted := by
      cases hcallee : s.machine.global? x with
      | none => exact ⟨0, by simp [Session.call, hcallee]⟩
      | some callee =>
        obtain ⟨B, hb⟩ := exists_looplessIn hps
        obtain ⟨callee', halike⟩ := ht.global hcallee
        obtain ⟨args', hargs'⟩ := alike_list fun a ha => hheld a (hargs a ha)
        refine ⟨s.machine.maxCalls * (B + 1) + 1, ?_⟩
        have hlasts := ht.call_lasts hb halike hargs' (Nat.lt_succ_self _)
        simp only [Session.call, hcallee]
        generalize ClassScript.call _ callee args s.machine = x at hlasts
        cases x with
        | done | failed | broken => simp [Session.conclude]
        | exhausted => exact absurd rfl hlasts
    obtain ⟨f₀, hf₀⟩ := hexhausted
    exact ⟨f₀, Outcome.ends_of (ht.hostCall f₀ x fun a ha => hheld a (hargs a ha)).1 hf₀,
      fun f hle => Session.call_fuel hle s x args hf₀⟩

/-- Functions that call each other without end, through the methods that set up objects: the host
calls one of them. -/
theorem only_loops_run_forever_recursive :
    let text := CharStream.ofString
      "class A { init() { f(); } } class B < A {} fun f() { return B(); }"
    let s := ((Session.initial fun _ => 0).run 99 text).2
    (s.call 99 "f" []).1 = .exhausted ∧
      ∃ f₀, (s.call f₀ "f" []).1.Ends ∧ ∀ f ≥ f₀, s.call f "f" [] = s.call f₀ "f" [] := by
  intro text s
  have h : Reached ((Session.initial fun _ => 0).ended 99 text []) [] s :=
    .step (.start fun _ => 0) (.run 99 text)
  have hps : ((Session.initial fun _ => 0).ended 99 text []).all Program.loopless = true := by
    decide +kernel
  have hspent : ((s.call 99 "f" []).1 matches .exhausted) = true := by decide +kernel
  refine ⟨?_, (only_loops_run_forever h (List.all_eq_true.mp hps)).2 "f" [] (by simp)⟩
  generalize (s.call 99 "f" []).1 = o at hspent
  cases o with
  | exhausted => rfl
  | ok | unbuilt | failed | broken => cases hspent

end ClassScript
