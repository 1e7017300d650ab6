/-
# For loops mean for loops

The parser makes a `for` statement of blocks and a loop (`Parser.forStmt_tree`). Wherever the machine
executes such a tree, it does what the clauses mean (`MeansLoop`): it agrees with `forLoop` from the
state that it stands for, so it has the same output and the same result or error, and what was there
before is changed alike.

Key theorem: `for_loops_mean_loops`. This holds at every `for` statement that is executed in a
session that can be reached.
-/
import ClassScript.Proofs.Lexical.ForLoops
import ClassScript.Proofs.Session.Mirror
import ClassScript.Proofs.Syntax.Soundness

namespace ClassScript

/-! ### The trees that the parser builds -/

namespace Parser

variable {e : Parser Expr} {c c' : Cursor}

/-- An initializer is the declaration of a variable or an expression. -/
theorem forInit_kind {init : Option Stmt} (h : forInit e c = .ok init c') :
    ∀ s ∈ init, (∃ span x value, s = .var span x value) ∨ ∃ span value, s = .expression span value := by
  simp only [forInit, bind_eq_ok] at h
  obtain ⟨t, c₁, -, h⟩ := h
  change answer _ c₁ = _ at h
  split at h
  next =>
    simp only [answer, bind_eq_ok, pure_eq_ok] at h
    obtain ⟨_, _, -, rfl, -⟩ := h
    rintro s ⟨⟩
  next =>
    simp only [answer, varDecl, within_eq_ok, bind_eq_ok, pure_eq_ok] at h
    obtain ⟨_, _, ⟨_, ⟨_, _, -, _, _, -, _, _, -, _, _, -, rfl, -⟩, -⟩, rfl, -⟩ := h
    rintro s ⟨rfl⟩
    exact .inl ⟨_, _, _, rfl⟩
  next =>
    simp only [answer, exprStmt, within_eq_ok, bind_eq_ok, pure_eq_ok] at h
    obtain ⟨_, _, ⟨_, ⟨_, _, -, _, _, -, rfl, -⟩, -⟩, rfl, -⟩ := h
    rintro s ⟨rfl⟩
    exact .inr ⟨_, _, rfl⟩

/-- The clauses of a `for` statement, read one after the other from the cursor behind its opening
parenthesis. -/
def ForClauses (f : Nat) (c : Cursor) (init : Option Stmt) (condition increment : Option Expr)
    (body : Stmt) : Prop :=
  ∃ c₁ c₂ c₃ c₄ c₅ c₆, ∃ sign close : Span,
    forInit (expression f) c = .ok init c₁ ∧
    unlessNext .semicolon (expression f) c₁ = .ok condition c₂ ∧
    expect .semicolon c₂ = .ok sign c₃ ∧
    unlessNext .closeParen (expression f) c₃ = .ok increment c₄ ∧
    expect .closeParen c₄ = .ok close c₅ ∧
    statement f c₅ = .ok body c₆

/-- A `for` statement is a loop, or a block with one in it. -/
theorem forStmt_eq_ok {s : Parser Stmt} {tree : Stmt} (h : forStmt e s c = .ok tree c') :
    ∃ c₀ c₁ c₂ c₃ c₄ c₅ c₆, ∃ init condition increment body, ∃ sign close : Span, ∃ span mark,
      forInit e c₀ = .ok init c₁ ∧ unlessNext .semicolon e c₁ = .ok condition c₂ ∧
      expect .semicolon c₂ = .ok sign c₃ ∧ unlessNext .closeParen e c₃ = .ok increment c₄ ∧
      expect .closeParen c₄ = .ok close c₅ ∧ s c₅ = .ok body c₆ ∧
      tree = .forLoop span init (condition.getD (.literal mark (.bool true))) increment body := by
  simp only [forStmt, within_eq_ok, bind_eq_ok, pure_eq_ok, last_eq_ok] at h
  obtain ⟨_, ⟨start, _, -, _, c₀, -, init, c₁, hinit, condition, c₂, hcondition, sign, c₃, hsign,
    increment, c₄, hincrement, close, c₅, hclose, body, c₆, hbody, stop, _, ⟨-, rfl⟩, test, _, htest,
    rfl, rfl⟩, rfl⟩ := h
  have hmark : ∃ mark, test = condition.getD (.literal mark (.bool true)) := by
    cases condition with
    | some e => exact ⟨⟨0, sign⟩, (pure_eq_ok.mp htest).1.symm⟩
    | none =>
      simp only [forCondition, bind_eq_ok, pure_eq_ok] at htest
      obtain ⟨mark, _, -, rfl, -⟩ := htest
      exact ⟨mark, rfl⟩
  obtain ⟨mark, rfl⟩ := hmark
  exact ⟨c₀, c₁, c₂, c₃, c₄, c₅, _, init, condition, increment, body, sign, close, _, mark, hinit,
    hcondition, hsign, hincrement, hclose, hbody, rfl⟩

theorem statement_declares {f : Nat} {s : Stmt} (h : statement f c = .ok s c') :
    s.declares = none := by
  cases f with
  | zero => simp [statement, exhausted_eq_ok] at h
  | succ f =>
    simp only [statement, staged_eq, bind_eq_ok] at h
    obtain ⟨t, c₁, -, h⟩ := h
    change answer _ c₁ = _ at h
    split at h
    next =>
      obtain ⟨_, _, _, _, _, _, _, init, _, increment, _, _, _, _, _, -, -, -, -, -, -, rfl⟩ :=
        forStmt_eq_ok h
      cases init <;> rfl
    next =>
      simp only [answer, ifStmt, within_eq_ok, bind_eq_ok, pure_eq_ok] at h
      obtain ⟨_, ⟨_, _, -, _, _, -, _, _, -, _, _, -, _, _, -, _, _, -, _, _, -, rfl, -⟩, -⟩ := h
      rfl
    next =>
      simp only [answer, printStmt, within_eq_ok, bind_eq_ok, pure_eq_ok] at h
      obtain ⟨_, ⟨_, _, -, _, _, -, _, _, -, rfl, -⟩, -⟩ := h
      rfl
    next =>
      simp only [answer, returnStmt, within_eq_ok, bind_eq_ok, pure_eq_ok] at h
      obtain ⟨_, ⟨_, _, -, _, _, -, _, _, -, rfl, -⟩, -⟩ := h
      rfl
    next =>
      simp only [answer, whileStmt, within_eq_ok, bind_eq_ok, pure_eq_ok] at h
      obtain ⟨_, ⟨_, _, -, _, _, -, _, _, -, _, _, -, _, _, -, _, _, -, rfl, -⟩, -⟩ := h
      rfl
    next =>
      simp only [answer, blockStmt, bind_eq_ok, pure_eq_ok] at h
      obtain ⟨_, _, -, _, _, -, _, _, -, rfl, -⟩ := h
      rfl
    next =>
      simp only [answer, exprStmt, within_eq_ok, bind_eq_ok, pure_eq_ok] at h
      obtain ⟨_, ⟨_, _, -, _, _, -, rfl, -⟩, -⟩ := h
      rfl

/-- **What the parser builds of a `for` statement is the tree of its clauses.** -/
theorem forStmt_tree {f : Nat} {tree : Stmt}
    (h : forStmt (expression f) (statement f) c = .ok tree c') :
    ∃ c₀ init condition increment body, ForClauses f c₀ init condition increment body ∧
      Stmt.ForTree init condition increment body tree := by
  obtain ⟨c₀, c₁, c₂, c₃, c₄, c₅, c₆, init, condition, increment, body, sign, close, span, mark, hinit,
    hcondition, hsign, hincrement, hclose, hbody, rfl⟩ := forStmt_eq_ok h
  exact ⟨c₀, init, condition, increment, body,
    ⟨c₁, c₂, c₃, c₄, c₅, c₆, sign, close, hinit, hcondition, hsign, hincrement, hclose, hbody⟩,
    span, mark, statement_declares hbody⟩

end Parser

/-! ### Where a for loop is executed -/

open Lexical Scope

variable {ps : List Program} {held : List Value} {s : Session} {W : World} {m : Machine} {σ : State}
  {ρ : Env} {c : Context} {n : Node}

/-- If the node is the tree of a `for` statement, the machine does what the statement means. It stands
for the state `σ`, and its current frame for the environment `ρ`. As far as the fuel reaches, it
agrees from there with the loop that the clauses make, and this with it. -/
def MeansLoop (ps : List Program) (n : Node) (m : Machine) : Prop :=
  ∀ init condition increment body tree, n = .stmt tree →
    Stmt.ForTree init condition increment body tree →
    ∃ W σ ρ c, Match ps W m σ ∧ At W m.frame ρ c n ∧
      (∀ f, exec f tree m ≠ .exhausted →
        Agree ps W m.frame [] (FlowsAlike fun _ ρ' => ρ' = ρ) (exec f tree m)
          (forLoop f ρ init condition increment body σ)) ∧
      ∀ f, forLoop f ρ init condition increment body σ ≠ .exhausted →
        Agree ps W m.frame [] (FlowsAlike fun _ ρ' => ρ' = ρ) (exec (f + 4) tree m)
          (forLoop f ρ init condition increment body σ)

/-- Behind a statement that declares nothing the environment is the same. -/
theorem Lexical.Agree.stays {xs : List String} {φ : Nat} {K : World → Env → Prop}
    {x : ClassScript.Answer ClassScript.Flow} {r : Lexical.Run Lexical.Flow} (hr : Stays ρ r)
    (h : Agree ps W φ xs (FlowsAlike K) x (r σ)) :
    Agree ps W φ xs (FlowsAlike fun _ ρ' => ρ' = ρ) x (r σ) := by
  cases hy : r σ with
  | exhausted => rw [hy] at h; cases h; exact .exhausted
  | stuck => rw [hy] at h; cases h
  | failed e σ' => rw [hy] at h; cases h with | failed grows hm hf => exact .failed grows hm hf
  | done flow σ' =>
    rw [hy] at h
    cases h with
    | done grows hm hf hflow =>
      refine .done grows hm hf ?_
      cases hflow with
      | next _ => exact .next (hr _ _ _ hy)
      | returned hv => exact .returned hv

theorem meansLoop_of_at (hm : Match ps W m σ) (ha : At W m.frame ρ c n)
    (hexact : ∀ s, n = .stmt s → s.declares = none → Exact W m.frame c.scopes) :
    MeansLoop ps n m := by
  rintro init condition increment body tree rfl htree
  obtain ⟨Δ, hacc, -⟩ := ha.accepted hm
  have hproper := htree.proper hacc.proper
  have hnone := htree.declares
  -- the tree does the same on the machine and under lexical scoping
  have hagree : ∀ f, Agree ps W m.frame [] (FlowsAlike fun _ ρ' => ρ' = ρ) (exec f tree m)
      (Lexical.exec f (!c.scopes.isEmpty) ρ tree σ) := by
    intro f
    have h := (all_agree f).2.2 hm ha (hexact tree rfl hnone)
    rw [hnone] at h
    exact h.stays (exec_stays hnone f _ ρ)
  refine ⟨W, σ, ρ, c, hm, ha, fun f hend => ?_, fun f hend => ?_⟩
  · have hended : Lexical.exec f (!c.scopes.isEmpty) ρ tree σ ≠ .exhausted := by
      intro hspent
      have h := hagree f
      rw [hspent] at h
      cases hx : exec f tree m with
      | exhausted => exact hend hx
      | done | failed | broken => rw [hx] at h; cases h
    rw [← (tree_cut_loop htree hproper f _ ρ).eq hended]
    exact hagree f
  · rw [(loop_cut_tree htree hproper f (!c.scopes.isEmpty) ρ).eq hend]
    exact hagree (f + 4)

/-- **A `for` statement means what a for loop means.** The parser builds the tree of the clauses that
it reads; an initializer is the declaration of a variable or an expression, and its variable has one
cell, which all rounds and all closures share. Wherever such a tree is executed in a session that can
be reached, by a text or by a call of a global name with values that the host holds, the machine
does what the clauses mean: no alarm is ever raised. -/
theorem for_loops_mean_loops :
    (∀ f c tree c', Parser.forStmt (Parser.expression f) (Parser.statement f) c = .ok tree c' →
      ∃ c₀ init condition increment body,
        Parser.ForClauses f c₀ init condition increment body ∧
        (∀ s ∈ init, (∃ span x e, s = .var span x e) ∨ ∃ span e, s = .expression span e) ∧
        Stmt.ForTree init condition increment body tree) ∧
    (∀ f ρ span x e σ flow σ', forStart f ρ (some (.var span x e)) σ = .done flow σ' →
      flow = .next (ρ.put x σ.cells.size)) ∧
    ∀ ps held s, Reached ps held s → ∀ (alarm : Breach) (f : Nat),
      (∀ (text : CharStream) p, Program.ofParse (text.parse s.nextId) = .ok p →
        let m := { s.machine with depths := s.machine.depths.merge p.depths }
        watchedAll alarm (MeansLoop (p :: ps)) f p.body m = execAll f p.body m ∧
          ∀ b, execAll f p.body m ≠ .broken b) ∧
      ∀ x callee args, s.machine.global? x = some callee → (∀ a ∈ args, a ∈ held) →
        watchedCall alarm (MeansLoop ps) f callee args s.machine = call f callee args s.machine ∧
          ∀ b, call f callee args s.machine ≠ .broken b := by
  refine ⟨fun f c tree c' h => ?_, fun f ρ span x e σ flow σ' => forStart_var,
    fun ps held s h alarm f => ?_⟩
  · obtain ⟨c₀, init, condition, increment, body, hclauses, htree⟩ := Parser.forStmt_tree h
    have hinit := hclauses
    obtain ⟨_, _, _, _, _, _, _, _, hread, -⟩ := hinit
    exact ⟨c₀, init, condition, increment, body, hclauses, Parser.forInit_kind hread, htree⟩
  · obtain ⟨W, σ, ht, hheld⟩ := h.tracked
    have hbelow := fun P => watched_below alarm P f
    refine ⟨fun text p hp => ?_, fun x callee args hcallee hargs => ?_⟩
    · have hagree := ht.sequence hp (watched_agrees_exact meansLoop_of_at alarm f).2.2
      exact (sequence_below (hbelow _).2.2 p.body).eq_of_unbroken hagree.unbroken
    · obtain ⟨callee', halike⟩ := ht.global hcallee
      obtain ⟨args', hargs'⟩ := alike_list fun a ha => hheld a (hargs a ha)
      have hagree := (watched_agrees_exact meansLoop_of_at alarm f).2.1 ht.holds halike hargs'
      exact ((hbelow _).2.1 callee args).eq_of_unbroken hagree.unbroken

/-- Closures that are made in different rounds change the one variable of the loop. -/
theorem for_loops_mean_loops_shared :
    let text := CharStream.ofString
      "var f; var g; for (var i = 0; i < 2; i = i + 1) { fun h() { print i = i + 5; } f = g; g = h; }
      f(); g();"
    let s := Session.initial fun _ => 0
    (s.run 99 text).2.machine.sink.written = "7\n12\n".toUTF8 ∧
    ∃ p, Program.ofParse (text.parse s.nextId) = .ok p ∧
      let m := { s.machine with depths := s.machine.depths.merge p.depths }
      watchedAll .pastGlobals (MeansLoop [p]) 99 p.body m = execAll 99 p.body m ∧
        ∀ b, execAll 99 p.body m ≠ .broken b := by
  intro text s
  refine ⟨by decide +kernel, ?_⟩
  have hbuilt : (Program.ofParse (text.parse s.nextId)).toOption.isSome = true := by
    decide +kernel
  cases hp : Program.ofParse (text.parse s.nextId) with
  | error e =>
    rw [hp] at hbuilt
    cases hbuilt
  | ok p =>
    have h : Reached [] [] s := .start fun _ => 0
    exact ⟨p, rfl, (for_loops_mean_loops.2.2 [] [] s h .pastGlobals 99).1 text p hp⟩

end ClassScript
