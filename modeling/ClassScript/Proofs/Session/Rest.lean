/-
# Machines at rest

Whatever is run gives the control of the machine back as it got it: the current frame is
the same frame, and as many calls are active as before (`Restored`). That holds of every
part of the evaluation and for every way in which it ends, also for an error in the middle
of calls, blocks and classes.

A host calls functions without putting the machine to rest behind them. Since every call
gives control back, this is not needed: between two steps of a host the current frame is
the global one and no call is active (`Reached.atRest`).

Key theorem: `control_restored`.
-/
import ClassScript.Proofs.Machine.Steady
import ClassScript.Proofs.Session.Reached

namespace ClassScript

variable {ps ps' : List Program} {held held' : List Value} {s s' : Session}

/-! ### Sessions -/

/-- No step of a host leaves a call behind. -/
theorem HostStep.calls (hstep : HostStep ps held s ps' held' s') (h : s.machine.calls = 0) :
    s'.machine.calls = 0 := by
  have hcall : ∀ {f x args}, (s.call f x args).2.machine.calls = 0 := by
    intro f x args
    unfold Session.call
    cases s.machine.global? x with
    | none => exact h
    | some callee =>
      have hkeeps := (runs_steady f).2.1 callee args s.machine
      dsimp only
      generalize ClassScript.call f callee args s.machine = a at hkeeps
      cases hkeeps with
      | done hkept | failed hkept => exact hkept.calls.trans h
      | broken b => exact h
      | exhausted => exact h
  cases hstep with
  | run f text =>
    unfold Session.run
    dsimp only
    cases Program.ofParse (text.parse s.nextId) with
    | error e => exact h
    | ok p =>
      unfold Session.execute Machine.execute
      dsimp only
      cases execAll f p.body _ <;> first | exact h | rfl
  | called hargs hrun | callFailed hargs hrun =>
    exact (congrArg (fun r => r.2.machine.calls) hrun).symm.trans hcall
  | obtain | property | assign | define | setMaxCalls | limitOutput | takeOutput => exact h

/-- **Between two steps of a host the machine is at rest.** -/
theorem Reached.atRest (h : Reached ps held s) : s.machine.atRest = s.machine := by
  have hcalls : s.machine.calls = 0 := by
    induction h with
    | start clock => rfl
    | step _ hstep ih => exact hstep.calls ih
  obtain ⟨W, σ, ht, -⟩ := h.tracked
  unfold Machine.atRest
  rw [← ht.frame, ← hcalls]

/-! ### Control -/

/-- However the run ended that started with the machine `m`, the current frame is the one it was and
as many calls are active as were. -/
def Restored {α : Type} (m : Machine) : Answer α → Prop
  | .done _ m' => m'.frame = m.frame ∧ m'.calls = m.calls
  | .failed _ m' => m'.frame = m.frame ∧ m'.calls = m.calls
  | .broken _ => True
  | .exhausted => True

theorem Steady.restored {α : Type} {r : Run α} (h : Steady r) (m : Machine) : Restored m (r m) := by
  have hm := h m
  generalize r m = x at hm
  cases hm with
  | done hkept => exact ⟨hkept.frame, hkept.calls⟩
  | failed hkept => exact ⟨hkept.frame, hkept.calls⟩
  | broken b => trivial
  | exhausted => trivial

/-- **Every run leaves the control of the machine as it found it.** Evaluating an expression, running
a statement, running statements in another frame, calling a closure, making an object and calling
any value do so from every machine and with every outcome, and so does a whole program. Hence the
machine of every session that can be reached has the global frame as its current one and no active
call, also when the last step was a text or a call of the host that failed. -/
theorem control_restored :
    (∀ f m, (∀ e, Restored m (eval f e m)) ∧ (∀ s, Restored m (exec f s m)) ∧
      (∀ frame ss, Restored m ((Run.sequence (exec f) ss).inFrame frame m)) ∧
      (∀ c args, Restored m (Run.apply (exec f) c args m)) ∧
      (∀ c args, Restored m (Run.construct (exec f) c args m)) ∧
      (∀ callee args, Restored m (call f callee args m)) ∧
      ∀ program, Restored m (execAll f program m)) ∧
    ∀ {ps : List Program} {held : List Value} {s : Session}, Reached ps held s →
      s.machine.frame = globalFrame ∧ s.machine.calls = 0 := by
  refine ⟨fun f m => ?_, fun h => ?_⟩
  · obtain ⟨he, hc, hx⟩ := runs_steady f
    exact ⟨fun e => (he e).restored m, fun s => (hx s).restored m,
      fun frame ss => ((sequence_steady hx ss).inFrame frame).restored m,
      fun c args => (apply_steady hx c args).restored m,
      fun c args => (construct_steady hx c args).restored m,
      fun callee args => (hc callee args).restored m,
      fun program => (sequence_steady hx program).restored m⟩
  · have hrest := h.atRest
    exact ⟨(congrArg Machine.frame hrest).symm, (congrArg Machine.calls hrest).symm⟩

/-- The host calls a function that fails inside of a block of a method, two calls deep. -/
theorem control_restored_failed_call :
    let text := CharStream.ofString "class A { m() { { var a; a(); } } } fun f() { A().m(); }"
    let s := ((Session.initial fun _ => 0).run 99 text).2
    ∃ e s', s.call 99 "f" [] = (.failed e, s') ∧ s'.machine.frame = globalFrame ∧
      s'.machine.calls = 0 := by
  intro text s
  have hfails : (match (s.call 99 "f" []).1 with | .failed _ => true | _ => false) = true := by
    decide +kernel
  have h : Reached _ [] s := .step (.start fun _ => 0) (.run 99 text)
  generalize hcall : s.call 99 "f" [] = r at hfails
  obtain ⟨outcome, s'⟩ := r
  cases outcome with
  | failed e =>
    have h' : Reached _ [] s' := .step h (.callFailed (by simp) hcall)
    exact ⟨e, s', rfl, control_restored.2 h'⟩
  | ok | unbuilt | broken | exhausted => cases hfails

end ClassScript
