/-
# What a for loop means

A `for` statement is no statement of its own in the tree: it is made of a block and a loop, and of
another block where there is an increment (`Stmt.ForTree`). `forLoop` is what it means: the
initializer runs once in a scope of the loop; each round tests the condition there, runs the body
and evaluates the increment; and a `return` in the body leaves at once.

The blocks of the tree are not there in the meaning. But a block without declarations leaves the
environment as it is (`exec_stays`), and what a block says about the place of an error has been
said already (`located_exec`). So the tree does what the loop means, whatever its clauses are and
whatever the fuel is.

Key theorems: `tree_cut_loop`, `loop_cut_tree`.
-/
import ClassScript.Proofs.Lexical.Agreement
import ClassScript.Proofs.Lexical.Fuel
import ClassScript.Proofs.Syntax.Proper

namespace ClassScript

/-- The tree of a `for` statement with the given clauses. A missing condition is the constant `true`,
and the body is no declaration. -/
inductive Stmt.ForTree (init : Option Stmt) (condition increment : Option Expr) (body : Stmt) :
    Stmt → Prop
  | mk (span : Span) (mark : Mark) (hbody : body.declares = none) :
    ForTree init condition increment body
      (.forLoop span init (condition.getD (.literal mark (.bool true))) increment body)

namespace Stmt.ForTree

variable {init : Option Stmt} {condition increment : Option Expr} {body tree : Stmt}

theorem declares (h : Stmt.ForTree init condition increment body tree) : tree.declares = none := by
  obtain ⟨span, mark, -⟩ := h
  cases init <;> rfl

theorem proper (h : Stmt.ForTree init condition increment body tree) (ht : tree.Proper) :
    body.Proper := by
  obtain ⟨span, mark, -⟩ := h
  cases init with
  | none =>
    cases increment with
    | none => exact ht.2.2
    | some e => exact ht.2.2.1
  | some s =>
    cases increment with
    | none => exact ht.2.1.2.2
    | some e => exact ht.2.1.2.2.1

end Stmt.ForTree

namespace Lexical

variable {α β : Type}

/-! ### The meaning of a for loop -/

/-- Tests the condition, runs the body and evaluates the increment, up to a round whose condition is
false or whose body returns, at most the given number of rounds. -/
def Run.forRounds (condition : Run (Value Env)) (body : Run Flow) (increment : Run Unit) (ρ : Env) :
    Nat → Run Flow
  | 0 => exhausted
  | n + 1 => do
    let v ← condition
    if v.isTrue then
      match ← body with
      | .next _ => do
        increment
        forRounds condition body increment ρ n
      | .returned v => pure (.returned v)
    else pure (.next ρ)

/-- The value of a condition. A missing one is true. -/
def forTest (f : Nat) (ρ : Env) : Option Expr → Run (Value Env)
  | none => pure (.bool true)
  | some e => eval f ρ e

/-- Evaluates an increment, if there is one. -/
def forAdvance (f : Nat) (ρ : Env) : Option Expr → Run Unit
  | none => pure ()
  | some e => do
    let _ ← eval f ρ e
    pure ()

/-- Opens the scope of a loop and runs the initializer in it, if there is one. -/
def forStart (f : Nat) (ρ : Env) : Option Stmt → Run Flow
  | none => pure (.next ρ)
  | some s => exec f true ρ s

/-- **What a `for` loop means.** All rounds are made in the one environment behind the
initializer. -/
def forLoop (f : Nat) (ρ : Env) (init : Option Stmt) (condition increment : Option Expr)
    (body : Stmt) : Run Flow := do
  match ← forStart f ρ init with
  | .next ρ' => do
    let flow ← Run.forRounds (forTest f ρ' condition) (exec f true ρ' body)
      (forAdvance f ρ' increment) ρ' f
    pure (flow.outside ρ)
  | .returned v => pure (.returned v)

/-! ### Laws of runs -/

instance : LawfulMonad Run :=
  .mk' _
    (fun r => by
      funext σ
      show Run.bind r Run.pure σ = r σ
      unfold Run.bind Run.pure
      cases r σ <;> rfl)
    (fun _ _ => rfl)
    (fun r f g => by
      funext σ
      show Run.bind (Run.bind r f) g σ = Run.bind r (fun a => Run.bind (f a) g) σ
      unfold Run.bind
      cases r σ <;> rfl)

variable {r : Run α}

/-- What follows a run has to be the same for its results only. -/
theorem bind_congr_of {f g : α → Run β} (h : ∀ σ a σ', r σ = .done a σ' → f a = g a) :
    r >>= f = r >>= g := by
  funext σ
  show Run.bind r f σ = Run.bind r g σ
  unfold Run.bind
  cases hr : r σ with
  | done a σ' => exact congrFun (h σ a σ' hr) σ'
  | failed | stuck | exhausted => rfl

theorem Run.bind_done_iff {f : α → Run β} {b : β} {σ σ' : State} :
    (r >>= f) σ = .done b σ' ↔ ∃ a σ₁, r σ = .done a σ₁ ∧ f a σ₁ = .done b σ' := by
  show Run.bind r f σ = _ ↔ _
  unfold Run.bind
  cases r σ <;> simp

theorem Run.located_done_iff {span : Span} {a : α} {σ σ' : State} :
    r.located span σ = .done a σ' ↔ r σ = .done a σ' := by
  unfold Run.located
  cases r σ <;> simp

/-- All errors of the run have a place. -/
def Placed (r : Run α) : Prop := ∀ σ e σ', r σ = .failed e σ' → e.span.isSome = true

namespace Placed

theorem pure (a : α) : Placed (Pure.pure a : Run α) := fun _ _ _ h => by cases h

theorem located (span : Span) (r : Run α) : Placed (r.located span) := by
  intro σ e σ' h
  unfold Run.located at h
  cases hr : r σ with
  | failed e₁ σ₁ =>
    rw [hr] at h
    cases h
    rfl
  | done | stuck | exhausted => simp [hr] at h

theorem bind {f : α → Run β} (h : Placed r) (hf : ∀ a, Placed (f a)) : Placed (r >>= f) := by
  intro σ e σ' hfail
  change Run.bind r f σ = _ at hfail
  unfold Run.bind at hfail
  cases hr : r σ with
  | done a σ₁ =>
    rw [hr] at hfail
    exact hf a _ _ _ hfail
  | failed e₁ σ₁ =>
    rw [hr] at hfail
    cases hfail
    exact h _ _ _ hr
  | stuck | exhausted => simp [hr] at hfail

theorem ite {c : Prop} [Decidable c] {p : Run α} (h : Placed r) (hp : Placed p) :
    Placed (if c then r else p) := by
  by_cases hc : c
  · rwa [if_pos hc]
  · rwa [if_neg hc]

/-- An error with a place is not attributed again. -/
theorem located_eq (h : Placed r) (span : Span) : r.located span = r := by
  funext σ
  unfold Run.located
  cases hr : r σ with
  | failed e σ' =>
    obtain ⟨place, hplace⟩ := Option.isSome_iff_exists.mp (h _ _ _ hr)
    obtain ⟨fault, span'⟩ := e
    cases hplace
    rfl
  | done | stuck | exhausted => rfl

end Placed

theorem eval_placed (f : Nat) (ρ : Env) (e : Expr) : Placed (eval f ρ e) := by
  cases f with
  | zero => exact fun _ _ _ h => by cases h
  | succ f => exact .located _ _

theorem exec_placed (f : Nat) (inner : Bool) (ρ : Env) (s : Stmt) : Placed (exec f inner ρ s) := by
  cases f with
  | zero => exact fun _ _ _ h => by cases h
  | succ f => exact .located _ _

theorem sequence_placed (f : Nat) (inner : Bool) (ρ : Env) (ss : List Stmt) :
    Placed (Run.sequence (exec f inner) ρ ss) := by
  induction ss generalizing ρ with
  | nil => exact .pure _
  | cons s ss ih =>
    refine (exec_placed f inner ρ s).bind fun flow => ?_
    cases flow with
    | next ρ' => exact ih ρ'
    | returned v => exact .pure _

theorem rounds_placed {ρ : Env} {c : Run (Value Env)} {body : Run Flow} (hc : Placed c)
    (hb : Placed body) (n : Nat) : Placed (Run.rounds ρ c body n) := by
  induction n with
  | zero => exact fun _ _ _ h => by cases h
  | succ n ih =>
    refine hc.bind fun v => .ite (hb.bind fun flow => ?_) (.pure _)
    cases flow with
    | next => exact ih
    | returned v => exact .pure _

/-! ### Statements without declarations -/

/-- Where the run does not return, the environment is `ρ` behind it. -/
def Stays (ρ : Env) (r : Run Flow) : Prop := ∀ σ ρ' σ', r σ = .done (.next ρ') σ' → ρ' = ρ

namespace Stays

variable {ρ : Env} {r p : Run Flow}

theorem next (ρ : Env) : Stays ρ (Pure.pure (.next ρ)) := fun _ _ _ h => by
  cases h
  rfl

theorem returned (v : Value Env) : Stays ρ (Pure.pure (.returned v)) := fun _ _ _ h => by cases h

theorem bind {r : Run α} {f : α → Run Flow} (hf : ∀ a, Stays ρ (f a)) : Stays ρ (r >>= f) := by
  intro σ ρ' σ' h
  obtain ⟨a, σ₁, -, h⟩ := Run.bind_done_iff.mp h
  exact hf a _ _ _ h

theorem located (h : Stays ρ r) (span : Span) : Stays ρ (r.located span) :=
  fun σ ρ' σ' hdone => h σ ρ' σ' (Run.located_done_iff.mp hdone)

theorem ite {c : Prop} [Decidable c] (h : Stays ρ r) (hp : Stays ρ p) :
    Stays ρ (if c then r else p) := by
  by_cases hc : c
  · rwa [if_pos hc]
  · rwa [if_neg hc]

theorem outside (ρ : Env) (flow : Flow) : Stays ρ (Pure.pure (flow.outside ρ)) := by
  cases flow with
  | next => exact .next ρ
  | returned v => exact .returned v

/-- What follows a run that stays has to be the same for that environment only. -/
theorem bind_congr {f g : Flow → Run β} (h : Stays ρ r) (hnext : f (.next ρ) = g (.next ρ))
    (hreturned : ∀ v, f (.returned v) = g (.returned v)) : r >>= f = r >>= g := by
  refine bind_congr_of fun σ flow σ' hr => ?_
  cases flow with
  | next ρ' =>
    obtain rfl := h _ _ _ hr
    exact hnext
  | returned v => exact hreturned v

/-- A run that stays is not changed by leaving its names behind. -/
theorem bind_outside (h : Stays ρ r) : (r >>= fun flow => pure (flow.outside ρ)) = r := by
  conv => rhs; rw [← bind_pure r]
  exact h.bind_congr rfl fun _ => rfl

end Stays

theorem rounds_stays (ρ : Env) (c : Run (Value Env)) (body : Run Flow) (n : Nat) :
    Stays ρ (Run.rounds ρ c body n) := by
  induction n with
  | zero => exact fun _ _ _ h => by cases h
  | succ n ih =>
    refine .bind fun v => .ite (.bind fun flow => ?_) (.next ρ)
    cases flow with
    | next => exact ih
    | returned v => exact .returned v

/-- **A statement that declares nothing leaves the environment as it is.** -/
theorem exec_stays {s : Stmt} (hs : s.declares = none) (f : Nat) (inner : Bool) (ρ : Env) :
    Stays ρ (exec f inner ρ s) := by
  cases f with
  | zero => exact fun _ _ _ h => by cases h
  | succ f =>
    refine .located ?_ s.span
    cases s with
    | expression => exact .bind fun _ => .next ρ
    | print => exact .bind fun _ => .bind fun _ => .next ρ
    | block => exact .bind fun flow => .outside ρ flow
    | branch _ _ _ no =>
      refine .bind fun _ => .ite (.bind fun flow => .outside ρ flow) ?_
      cases no with
      | none => exact .bind fun flow => .outside ρ flow
      | some s => exact .bind fun flow => .outside ρ flow
    | loop => exact rounds_stays ρ _ _ f
    | «return» => exact .bind fun _ => .returned _
    | var | function | classDecl => cases hs

/-- **A statement that declares nothing** does the same in a block and outside of blocks. -/
theorem exec_inner {s : Stmt} (hs : s.declares = none) (hp : s.Proper) (f : Nat) (inner : Bool)
    (ρ : Env) : exec f inner ρ s = exec f true ρ s := by
  induction f generalizing s ρ with
  | zero => rfl
  | succ f ih =>
    simp only [exec, Run.stmtStep]
    cases s with
    | expression | print | block | «return» => rfl
    | branch _ c yes no =>
      obtain ⟨-, ⟨hyes, hyes'⟩, hno⟩ := hp
      cases no with
      | none => simp only [ih hyes hyes']
      | some s => simp only [ih hyes hyes', ih hno.1 hno.2]
    | loop _ c body =>
      obtain ⟨-, hbody, hbody'⟩ := hp
      simp only [ih hbody hbody']
    | var | function | classDecl => cases hs

/-- **A variable of the loop has one cell,** a new one, and is in sight in all rounds. -/
theorem forStart_var {f : Nat} {ρ : Env} {span : Span} {x : String} {e : Option Expr} {σ σ' : State}
    {flow : Flow} (h : forStart f ρ (some (.var span x e)) σ = .done flow σ') :
    flow = .next (ρ.put x σ.cells.size) := by
  cases f with
  | zero => cases h
  | succ f =>
    have hcell : Run.declare true σ =
        .done (some σ.cells.size) { σ with cells := σ.cells.push none } := rfl
    simp only [forStart, exec, Run.stmtStep] at h
    rw [Run.located_done_iff, Run.bind_done hcell, Run.bind_done_iff] at h
    obtain ⟨v, σ₁, -, h⟩ := h
    cases h
    rfl

/-! ### The tree of a for loop -/

/-- One round behind its test: the body, and then the increment. -/
def Run.forRound (ρ : Env) (body : Run Flow) (increment : Run Unit) : Run Flow := do
  match ← body with
  | .next _ => do
    increment
    pure (.next ρ)
  | .returned v => pure (.returned v)

theorem forRound_bind (ρ : Env) (body : Run Flow) (increment : Run Unit) (k : Flow → Run β) :
    Run.forRound ρ body increment >>= k = (do
      match ← body with
      | .next _ => do
        increment
        k (.next ρ)
      | .returned v => k (.returned v)) := by
  rw [Run.forRound, bind_assoc]
  refine bind_congr fun flow => ?_
  cases flow with
  | next => simp only [bind_assoc, pure_bind]
  | returned => simp only [pure_bind]

/-- The rounds of a `for` loop are those of a loop whose rounds end with the increment. -/
theorem forRounds_eq (ρ : Env) (condition : Run (Value Env)) (body : Run Flow) (increment : Run Unit)
    (n : Nat) : Run.forRounds condition body increment ρ n =
      Run.rounds ρ condition (Run.forRound ρ body increment) n := by
  induction n with
  | zero => rfl
  | succ n ih =>
    rw [Run.forRounds, Run.rounds, ih]
    refine bind_congr fun v => ?_
    rw [forRound_bind]

/-- A block of two statements. -/
theorem exec_pair (f : Nat) (inner : Bool) (ρ : Env) (span : Span) (s t : Stmt) :
    exec (f + 1) inner ρ (.block span [s, t]) = (do
      match ← exec f true ρ s with
      | .next ρ' => do
        let flow ← exec f true ρ' t
        pure (flow.outside ρ)
      | .returned v => pure (.returned v)) := by
  have hplaced : Placed (do
      let flow ← Run.sequence (exec f true) ρ [s, t]
      pure (flow.outside ρ)) :=
    (sequence_placed f true ρ _).bind fun _ => .pure _
  simp only [exec, Run.stmtStep]
  rw [hplaced.located_eq, Run.sequence, bind_assoc]
  refine bind_congr fun flow => ?_
  cases flow with
  | next ρ' =>
    simp only [Run.sequence, bind_assoc]
    refine bind_congr fun flow => ?_
    cases flow <;> rfl
  | returned => rfl

theorem exec_expression (f : Nat) (inner : Bool) (ρ : Env) (span : Span) (e : Expr) :
    exec (f + 1) inner ρ (.expression span e) = (do
      let _ ← eval f ρ e
      pure (.next ρ)) :=
  ((eval_placed f ρ e).bind fun _ => .pure _).located_eq span

theorem exec_loop (f : Nat) (inner : Bool) (ρ : Env) (span : Span) (c : Expr) (body : Stmt) :
    exec (f + 1) inner ρ (.loop span c body) =
      Run.rounds ρ (eval f ρ c) (exec f inner ρ body) f :=
  (rounds_placed (eval_placed f ρ c) (exec_placed f inner ρ body) f).located_eq span

section

variable {init : Option Stmt} {condition increment : Option Expr} {body tree : Stmt} {f : Nat}
  {inner : Bool} {ρ : Env}

/-- The condition of the tree is cut from that of the loop. -/
theorem test_cut (f : Nat) (ρ : Env) (mark : Mark) (condition : Option Expr) :
    Cut (eval f ρ (condition.getD (.literal mark (.bool true)))) (forTest f ρ condition) := by
  cases condition with
  | some e => exact .refl _
  | none =>
    cases f with
    | zero => exact fun _ => .inl rfl
    | succ f => exact .refl _

theorem cut_test (f : Nat) (ρ : Env) (mark : Mark) (condition : Option Expr) :
    Cut (forTest f ρ condition) (eval (f + 1) ρ (condition.getD (.literal mark (.bool true)))) := by
  cases condition with
  | some e => exact (fuel_cut (Nat.le_succ f)).1 ρ e
  | none => exact .refl _

/-- The body and the increment, in the block that the tree has where there is an increment. -/
theorem round_eq (hbody : body.declares = none) (f : Nat) (inner : Bool) (ρ : Env)
    (span place : Span) (e : Expr) :
    exec (f + 2) inner ρ (.block span [body, .expression place e]) =
      Run.forRound ρ (exec (f + 1) true ρ body) (forAdvance f ρ (some e)) := by
  rw [exec_pair, Run.forRound]
  refine (exec_stays hbody (f + 1) true ρ).bind_congr ?_ fun _ => rfl
  simp only [exec_expression, forAdvance, bind_assoc, pure_bind]
  rfl

theorem forRound_cut {b b' : Run Flow} {i i' : Run Unit} (hb : Cut b b') (hi : Cut i i') :
    Cut (Run.forRound ρ b i) (Run.forRound ρ b' i') := by
  refine hb.bind fun flow => ?_
  cases flow with
  | next => exact hi.bind fun _ => .refl _
  | returned => exact .refl _

theorem advance_cut {f f' : Nat} (h : f ≤ f') (ρ : Env) (increment : Option Expr) :
    Cut (forAdvance f ρ increment) (forAdvance f' ρ increment) := by
  cases increment with
  | none => exact .refl _
  | some e => exact ((fuel_cut h).1 ρ e).bind fun _ => .refl _

/-- The body of the loop in the tree. -/
def roundTree (body : Stmt) : Option Expr → Stmt
  | none => body
  | some e => .block body.span [body, .expression e.span e]

/-- Without an increment a round is the body. -/
theorem forRound_none (hbody : body.declares = none) (f : Nat) (ρ : Env) :
    Run.forRound ρ (exec f true ρ body) (forAdvance f ρ none) = exec f true ρ body := by
  conv => rhs; rw [← bind_pure (exec f true ρ body)]
  exact (exec_stays hbody f true ρ).bind_congr rfl fun _ => rfl

theorem round_cut (hbody : body.declares = none) (hproper : body.Proper) (f : Nat) (inner : Bool)
    (ρ : Env) (increment : Option Expr) : Cut (exec f inner ρ (roundTree body increment))
      (Run.forRound ρ (exec f true ρ body) (forAdvance f ρ increment)) := by
  cases increment with
  | none =>
    rw [forRound_none hbody, roundTree, exec_inner hbody hproper]
    exact .refl _
  | some e =>
    match f with
    | 0 => exact fun _ => .inl rfl
    | 1 =>
      rw [roundTree, exec_pair]
      exact fun _ => .inl rfl
    | f + 2 =>
      rw [roundTree, round_eq hbody]
      exact forRound_cut ((fuel_cut (Nat.le_succ _)).2.2 true ρ body) (advance_cut (by omega) ρ _)

theorem cut_round (hbody : body.declares = none) (hproper : body.Proper) (f : Nat) (inner : Bool)
    (ρ : Env) (increment : Option Expr) :
    Cut (Run.forRound ρ (exec f true ρ body) (forAdvance f ρ increment))
      (exec (f + 2) inner ρ (roundTree body increment)) := by
  cases increment with
  | none =>
    have hle : f ≤ f + 2 := by omega
    rw [forRound_none hbody, roundTree, exec_inner hbody hproper (f + 2) inner ρ]
    exact (fuel_cut hle).2.2 true ρ body
  | some e =>
    rw [roundTree, round_eq hbody]
    exact forRound_cut ((fuel_cut (Nat.le_succ _)).2.2 true ρ body) (.refl _)

/-- The loop of the tree is cut from the rounds of the `for` loop. -/
theorem rounds_cut_for (hbody : body.declares = none) (hproper : body.Proper) (f : Nat)
    (inner : Bool) (ρ : Env) (span : Span) (mark : Mark) (condition increment : Option Expr) :
    Cut (exec f inner ρ (.loop span (condition.getD (.literal mark (.bool true)))
        (roundTree body increment)))
      (Run.forRounds (forTest f ρ condition) (exec f true ρ body) (forAdvance f ρ increment) ρ f) := by
  cases f with
  | zero => exact fun _ => .inl rfl
  | succ f =>
    have hle := Nat.le_succ f
    rw [exec_loop, forRounds_eq]
    refine rounds_cut ρ ?_ ?_ hle
    · exact ((fuel_cut hle).1 ρ _).trans (test_cut (f + 1) ρ mark condition)
    · exact ((fuel_cut hle).2.2 inner ρ _).trans (round_cut hbody hproper (f + 1) inner ρ increment)

theorem for_cut_rounds (hbody : body.declares = none) (hproper : body.Proper) (f : Nat)
    (inner : Bool) (ρ : Env) (span : Span) (mark : Mark) (condition increment : Option Expr) :
    Cut (Run.forRounds (forTest f ρ condition) (exec f true ρ body) (forAdvance f ρ increment) ρ f)
      (exec (f + 3) inner ρ (.loop span (condition.getD (.literal mark (.bool true)))
        (roundTree body increment))) := by
  rw [exec_loop, forRounds_eq]
  refine rounds_cut ρ ?_ (cut_round hbody hproper f inner ρ increment) (by omega)
  exact (cut_test f ρ mark condition).trans ((fuel_cut (Nat.le_succ _)).1 ρ _)

theorem forRounds_stays (ρ : Env) (condition : Run (Value Env)) (body : Run Flow)
    (increment : Run Unit) (n : Nat) : Stays ρ (Run.forRounds condition body increment ρ n) := by
  rw [forRounds_eq]
  exact rounds_stays ρ _ _ n

/-- Without an initializer a `for` loop consists of its rounds. -/
theorem forLoop_none (f : Nat) (ρ : Env) (condition increment : Option Expr) (body : Stmt) :
    forLoop f ρ none condition increment body =
      Run.forRounds (forTest f ρ condition) (exec f true ρ body) (forAdvance f ρ increment) ρ f :=
  (forRounds_stays ρ _ _ _ f).bind_outside

/-- **The tree of a `for` loop does what the loop means,** as far as its fuel reaches. -/
theorem tree_cut_loop (h : Stmt.ForTree init condition increment body tree) (hproper : body.Proper)
    (f : Nat) (inner : Bool) (ρ : Env) :
    Cut (exec f inner ρ tree) (forLoop f ρ init condition increment body) := by
  obtain ⟨span, mark, hbody⟩ := h
  have hrounds := rounds_cut_for hbody hproper
  cases init with
  | none =>
    rw [forLoop_none]
    exact hrounds f inner ρ span mark condition increment
  | some s =>
    cases f with
    | zero => exact fun _ => .inl rfl
    | succ f =>
      have hle := Nat.le_succ f
      show Cut (exec (f + 1) inner ρ (.block span [s, .loop span _ (roundTree body increment)])) _
      rw [exec_pair]
      refine ((fuel_cut hle).2.2 true ρ s).bind fun flow => ?_
      cases flow with
      | returned => exact .refl _
      | next ρ' =>
        refine Cut.bind ?_ fun _ => .refl _
        exact ((fuel_cut hle).2.2 true ρ' _).trans
          (hrounds (f + 1) true ρ' span mark condition increment)

/-- **What a `for` loop means, its tree does,** with a little more fuel. -/
theorem loop_cut_tree (h : Stmt.ForTree init condition increment body tree) (hproper : body.Proper)
    (f : Nat) (inner : Bool) (ρ : Env) :
    Cut (forLoop f ρ init condition increment body) (exec (f + 4) inner ρ tree) := by
  obtain ⟨span, mark, hbody⟩ := h
  have hrounds := for_cut_rounds hbody hproper
  cases init with
  | none =>
    rw [forLoop_none]
    exact (hrounds f inner ρ span mark condition increment).trans
      ((fuel_cut (Nat.le_succ _)).2.2 inner ρ _)
  | some s =>
    show Cut _ (exec (f + 4) inner ρ (.block span [s, .loop span _ (roundTree body increment)]))
    have hle : f ≤ f + 3 := by omega
    rw [exec_pair]
    refine ((fuel_cut hle).2.2 true ρ s).bind fun flow => ?_
    cases flow with
    | returned => exact .refl _
    | next ρ' => exact (hrounds f true ρ' span mark condition increment).bind fun _ => .refl _

end

end Lexical
end ClassScript
