/-
# Watching a run

A run is watched if a property of the machine is looked at whenever a statement or an
expression starts and whenever it ends, with a result or with an error. The first time
that it does not hold, an alarm ends the run like a broken invariant. Evaluation is
watched at all levels: `watchedEval`, `watchedCall` and `watchedExec` are made like
`eval`, `call` and `exec`, of the same steps.

Watching changes no answer but for the alarm (`watched_below`). So a watched run without
an alarm is the run itself, and the property holds throughout.
-/
import ClassScript.Proofs.Machine.Below
import ClassScript.Proofs.Scope.Visit

namespace ClassScript

open Scope

variable {α : Type}

open Classical in
/-- Runs `r` and looks at `P` before and after it. -/
noncomputable def watch (alarm : Breach) (P : Machine → Prop) (r : Run α) : Run α := fun m =>
  if P m then
    match r m with
    | .done a m' => if P m' then .done a m' else .broken alarm
    | .failed e m' => if P m' then .failed e m' else .broken alarm
    | a => a
  else .broken alarm

mutual

/-- Evaluates an expression and watches it and all that is evaluated and run on the way. -/
noncomputable def watchedEval (alarm : Breach) (P : Node → Machine → Prop) : Nat → Expr → Run Value
  | 0, _ => Run.exhausted
  | f + 1, e => watch alarm (P (.expr e))
      (Run.exprStep (watchedEval alarm P f) (watchedCall alarm P f) e)

/-- Calls a value and watches all that is evaluated and run on the way. -/
noncomputable def watchedCall (alarm : Breach) (P : Node → Machine → Prop) :
    Nat → Value → List Value → Run Value
  | 0, _, _ => Run.exhausted
  | f + 1, callee, args => Run.callStep (watchedExec alarm P f) callee args

/-- Runs a statement and watches it and all that is evaluated and run on the way. -/
noncomputable def watchedExec (alarm : Breach) (P : Node → Machine → Prop) : Nat → Stmt → Run Flow
  | 0, _ => Run.exhausted
  | f + 1, s => watch alarm (P (.stmt s))
      (Run.stmtStep (watchedEval alarm P f) (watchedExec alarm P f) f s)

end

/-- Runs the statements of a program and watches them. -/
noncomputable def watchedAll (alarm : Breach) (P : Node → Machine → Prop) (f : Nat)
    (program : List Stmt) : Run Flow :=
  Run.sequence (watchedExec alarm P f) program

/-- A watched run answers as the run does, or raises the alarm. -/
theorem watch_below {alarm : Breach} {r r' : Run α} (P : Machine → Prop)
    (h : Below (.broken alarm) r r') : Below (.broken alarm) (watch alarm P r) r' := by
  intro m
  unfold watch
  by_cases hP : P m
  · rw [if_pos hP]
    rcases h m with hm | hm
    · rw [hm]
      exact .inl rfl
    · rw [hm]
      cases r' m with
      | broken b => exact .inr rfl
      | exhausted => exact .inr rfl
      | done a m' | failed e m' =>
        dsimp only
        by_cases hP' : P m'
        · rw [if_pos hP']
          exact .inr rfl
        · rw [if_neg hP']
          exact .inl rfl
  · rw [if_neg hP]
    exact .inl rfl

/-- **Watching changes no answer but for the alarm.** -/
theorem watched_below (alarm : Breach) (P : Node → Machine → Prop) (f : Nat) :
    (∀ e, Below (.broken alarm) (watchedEval alarm P f e) (eval f e)) ∧
    (∀ v vs, Below (.broken alarm) (watchedCall alarm P f v vs) (call f v vs)) ∧
    ∀ s, Below (.broken alarm) (watchedExec alarm P f s) (exec f s) := by
  induction f with
  | zero => exact ⟨fun _ _ => .inr rfl, fun _ _ _ => .inr rfl, fun _ _ => .inr rfl⟩
  | succ f ih =>
    obtain ⟨he, hc, hx⟩ := ih
    refine ⟨fun e m => ?_, fun v vs m => ?_, fun s m => ?_⟩
    · simp only [watchedEval, eval, staged_eq]
      exact watch_below _ (exprStep_below he hc e) m
    · simp only [watchedCall, call, staged_eq]
      exact callStep_below hx v vs m
    · simp only [watchedExec, exec, staged_eq]
      exact watch_below _ (stmtStep_below he hx (.inl rfl) s) m

end ClassScript
