/-
# The machine refines lexical scoping

A session on the machine and one under lexical scoping, with the same texts, the same
clock, the same limit to the depth of calls and the same sink, have the same outcomes and
the same output (`machine_refines_lexical`). The machine looks names up by the depths of
the analysis, in chains of frames that change; under lexical scoping there are neither.

A text diverges if it is out of fuel whatever the fuel is. What a diverging text has
written by some time is what it writes into a sink with as much room as that.
-/
import ClassScript.Proofs.Session.Tracking
import ClassScript.Proofs.Machine.Below

namespace ClassScript

open Lexical

/-- The session behind texts that were run one after the other, each with its fuel. -/
def Session.behind (s : Session) (history : List (Nat × CharStream)) : Session :=
  history.foldl (fun s step => (s.run step.1 step.2).2) s

/-- Both sessions have run texts with the same outcomes, and go on with the same identity. -/
def InStep (s : Session) (S : Lexical.Session) : Prop :=
  ∃ ps W, Tracks ps s W S.state ∧ S.nextId = s.nextId

variable {s : Session} {S : Lexical.Session}

/-- Sessions in step run a text alike. -/
theorem InStep.run (h : InStep s S) (f : Nat) (text : CharStream) :
    (S.run f text).1 = some (s.run f text).1 ∧ InStep (s.run f text).2 (S.run f text).2 := by
  obtain ⟨ps, W, ht, hid⟩ := h
  obtain ⟨σ, n⟩ := S
  obtain rfl : n = s.nextId := hid
  have hrun := ht.run f text
  obtain ⟨W', -, ht'⟩ := hrun.tracks
  exact ⟨hrun.outcome, _, W', ht', hrun.nextId⟩

/-- **Sessions stay in step,** text after text. -/
theorem InStep.behind : ∀ {s : Session} {S : Lexical.Session}, InStep s S →
    ∀ history : List (Nat × CharStream), InStep (s.behind history) (S.behind history)
  | _, _, h, [] => h
  | _, _, h, step :: history => InStep.behind (h.run step.1 step.2).2 history

theorem InStep.sink (h : InStep s S) : S.state.sink = s.machine.sink := by
  obtain ⟨ps, W, ht, -⟩ := h
  exact ht.holds.sink

/-- Sessions with the same clock and the same limits start in step. -/
theorem inStep_start (clock : Nat → Float) (maxCalls : Nat) (sink : Sink) :
    InStep ⟨{ Machine.initial clock with maxCalls, sink }, 0⟩
      ⟨{ State.initial clock with maxCalls, sink }, 0⟩ := by
  have ht := Tracks.initial clock
  exact ⟨[], _, ht.move (ht.holds.withLimits sink maxCalls) rfl (Nat.le_refl _), rfl⟩

/-- **The machine refines lexical scoping.** Behind any texts, a text has the same outcome on the
machine as under lexical scoping: it is done, or fails with the same error, or is out of fuel, and
its output is the same. So it diverges on one side if it does on the other; and where it does not,
the fuel that it takes to its end does not matter. -/
theorem machine_refines_lexical (clock : Nat → Float) (maxCalls : Nat) (sink : Sink)
    (history : List (Nat × CharStream)) (text : CharStream) :
    let s := Session.behind ⟨{ Machine.initial clock with maxCalls, sink }, 0⟩ history
    let S := Lexical.Session.behind ⟨{ State.initial clock with maxCalls, sink }, 0⟩ history
    (∀ f, (S.run f text).1 = some (s.run f text).1 ∧
      (S.run f text).2.state.sink = (s.run f text).2.machine.sink) ∧
    ((∀ f, (s.run f text).1 = .exhausted) ↔ ∀ f, (S.run f text).1 = some .exhausted) ∧
    ∀ f f', f ≤ f' → (s.run f text).1 ≠ .exhausted → s.run f' text = s.run f text := by
  intro s S
  have hstep : InStep s S := (inStep_start clock maxCalls sink).behind history
  have hrun : ∀ f, (S.run f text).1 = some (s.run f text).1 ∧
      (S.run f text).2.state.sink = (s.run f text).2.machine.sink := fun f =>
    ⟨(hstep.run f text).1, (hstep.run f text).2.sink⟩
  refine ⟨hrun, ?_, fun f f' hle hend => Session.run_fuel hle s text hend⟩
  constructor
  · intro h f
    rw [(hrun f).1, h f]
  · intro h f
    have hf := h f
    rw [(hrun f).1] at hf
    exact Option.some.inj hf

end ClassScript
