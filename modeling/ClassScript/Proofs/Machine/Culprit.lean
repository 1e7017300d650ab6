/-
# What failed was executed

A run is watched for nodes with some property: the alarm ends it as soon as another node is to be
executed. Then the activation that an error of it is attributed to is such a node, too, since each
activation begins with the execution of its node (`watched_accounted`). Where no alarm is raised,
the watched run is the run itself, so what failed is one of the nodes that are known to be executed.

Key definition: `Activation.node`.
Key theorem: `Machine.raised_by`.
-/
import ClassScript.Proofs.Machine.Attribution
import ClassScript.Proofs.Machine.Watch

namespace ClassScript

open Scope

variable {α : Type} {b : Breach} {active : List Activation} {allowed : Fault → Prop}

/-- The node that is executed. -/
def Activation.node : Activation → Node
  | .eval e => .expr e
  | .exec s => .stmt s

theorem Expr.ids_ne_nil (e : Expr) : e.ids ≠ [] := by
  cases e <;> simp [Expr.ids]

/-- A fault belongs to a node with an expression in it. -/
theorem Activation.Raises.ids_ne_nil {n : Activation} {fault : Fault} (h : n.Raises fault) :
    n.node.ids ≠ [] := by
  cases h with
  | classDecl => exact List.cons_ne_nil _ _
  | print => exact Expr.ids_ne_nil _
  | _ => exact Expr.ids_ne_nil _

/-- The alarm is raised, or the run is accounted for. -/
theorem Accounted.watch {known : Activation → Prop} {q : Prop} {r : Run α} {t : Attributed α}
    (h : q → Accounted (some b) known active allowed r t) :
    Accounted (some b) known active allowed (watch b (fun _ => q) r) t := by
  intro m
  unfold ClassScript.watch
  by_cases hq : q
  · have hm := h hq m
    rw [if_pos hq]
    cases hr : r m with
    | done a m' | failed e m' =>
      dsimp only
      rw [if_pos hq, ← hr]
      exact hm
    | broken | exhausted =>
      dsimp only
      rw [← hr]
      exact hm
  · rw [if_neg hq]
    exact .alarmed b _

/-- **What a watched run fails at is one of the nodes it is watched for.** -/
theorem watched_accounted (b : Breach) (q : Node → Prop) (f : Nat) :
    (∀ active allowed e, Accounted (some b) (fun n => q n.node) active allowed
      (watchedEval b (fun n _ => q n) f e) (attributedEval f e)) ∧
    (∀ active v vs, Accounted (some b) (fun n => q n.node) active Fault.OfCall
      (watchedCall b (fun n _ => q n) f v vs) (attributedCall f v vs)) ∧
    ∀ active allowed s, Accounted (some b) (fun n => q n.node) active allowed
      (watchedExec b (fun n _ => q n) f s) (attributedExec f s) := by
  induction f with
  | zero =>
    simp only [watchedEval, watchedCall, watchedExec]
    exact ⟨fun _ _ _ _ => .exhausted, fun _ _ _ _ => .exhausted, fun _ _ _ _ => .exhausted⟩
  | succ f ih =>
    obtain ⟨he, hc, hx⟩ := ih
    refine ⟨fun active allowed e => ?_, fun active v vs => ?_, fun active allowed s => ?_⟩
    · rw [watchedEval, attributedEval]
      exact .watch fun hq => .exprStep he hc hq
    · rw [watchedCall, attributedCall]
      exact .callStep (hx active _) v vs
    · rw [watchedExec, attributedExec]
      exact .watch fun hq => .stmtStep he hx f hq

/-- **An error is raised by a node that is executed.** Where watching a program for nodes with a
property raises no alarm, an error of it is attributed to an activation with that property, which
raises it, and has the place of that activation. -/
theorem Machine.raised_by {q : Node → Prop} {f : Nat} {p : Program} {m m' : Machine}
    {e : RuntimeError}
    (hquiet : let m := { m with depths := m.depths.merge p.depths }
      watchedAll b (fun n _ => q n) f p.body m = execAll f p.body m ∧
        ∀ b', execAll f p.body m ≠ .broken b')
    (h : m.execute f p = .failed e m') : ∃ n outer,
      m.attributedExecute f p = .failed ⟨e.fault, n :: outer⟩ m' ∧ n.Raises e.fault ∧
        e.span = some n.place ∧ q n.node := by
  obtain ⟨hwatched, hunbroken⟩ := hquiet
  have hrun := Accounted.sequence ((watched_accounted b q f).2.2 [] fun _ => False) p.body
    { m with depths := m.depths.merge p.depths }
  unfold execute at h
  unfold attributedExecute
  unfold watchedAll at hwatched
  rw [hwatched] at hrun
  generalize execAll f p.body _ = x at hrun hunbroken h
  generalize Attributed.sequence (attributedExec f) p.body [] _ = y at hrun
  cases hrun with
  | raised hfalse => exact hfalse.elim
  | passed hraises hknown =>
    cases h
    exact ⟨_, _, rfl, hraises, rfl, hknown⟩
  | alarmed => exact absurd rfl (hunbroken _)
  | done | broken | exhausted => cases h

end ClassScript
