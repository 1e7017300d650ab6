/-
# A local variable may have another name

Renaming one local variable or parameter, with all that refers to it, changes nothing that
a program does, if the new name does not occur in it: the program passes the analysis with
the same depths, and from the same session it has the same outcome and the same output.

Key theorem: `rename_local_variable`.
-/
import ClassScript.Proofs.Session.Reached
import ClassScript.Proofs.Variant.Renaming
import ClassScript.Proofs.Variant.Scopes
import ClassScript.Proofs.Variant.Start

namespace ClassScript

open Scope Variant

variable {ps : List Program} {held : List Value} {s : Session} {p : Program} {text : CharStream}

/-! ### Names of variables -/

theorem Stmt.variables_proper {x : String} {ss : List Stmt} (hp : Stmt.ProperAll ss)
    (hx : x ∈ ss.filterMap Stmt.varName?) : ProperName x := by
  obtain ⟨s, hs, hx⟩ := List.mem_filterMap.mp hx
  have hproper := (Stmt.properAll_iff ss).mp hp s hs
  cases s <;> simp only [Stmt.varName?, reduceCtorEq, Option.some.injEq] at hx
  exact hx ▸ hproper.1

mutual

theorem Stmt.variablesAt_proper {x : String} : ∀ {s : Stmt} {way : List Nat}, s.Proper →
    x ∈ s.variablesAt way → ProperName x
  | .block _ _, [], hp, hx => Stmt.variables_proper hp hx
  | .block _ _, _ :: _, hp, hx => Stmt.variablesIn_proper hp hx
  | .branch _ _ _ _, 0 :: _, hp, hx => Stmt.variablesAt_proper hp.2.1.2 hx
  | .branch _ _ _ (some _), 1 :: _, hp, hx => Stmt.variablesAt_proper hp.2.2.2 hx
  | .loop _ _ _, 0 :: _, hp, hx => Stmt.variablesAt_proper hp.2.2 hx
  | .function _ _, _, hp, hx => FunctionDecl.variablesAt_proper hp hx
  | .classDecl _ _ _ _, _, hp, hx => FunctionDecl.variablesIn_proper hp.2 hx

theorem Stmt.variablesIn_proper {x : String} : ∀ {ss : List Stmt} {way : List Nat},
    Stmt.ProperAll ss → x ∈ Stmt.variablesIn ss way → ProperName x
  | _ :: _, 0 :: _, hp, hx => Stmt.variablesAt_proper hp.1 hx
  | _ :: _, (_ + 1) :: _, hp, hx => Stmt.variablesIn_proper hp.2 hx

theorem FunctionDecl.variablesAt_proper {x : String} : ∀ {d : FunctionDecl} {way : List Nat},
    d.Proper → x ∈ d.variablesAt way → ProperName x
  | .mk _ params _, [], hp, hx => by
    rcases List.mem_append.mp hx with hx | hx
    · obtain ⟨q, hq, rfl⟩ := List.mem_map.mp hx
      exact hp.2.1 q hq
    · exact Stmt.variables_proper hp.2.2 hx
  | .mk _ _ _, _ :: _, hp, hx => Stmt.variablesIn_proper hp.2.2 hx

theorem FunctionDecl.variablesIn_proper {x : String} : ∀ {ds : List FunctionDecl} {way : List Nat},
    FunctionDecl.ProperAll ds → x ∈ FunctionDecl.variablesIn ds way → ProperName x
  | _ :: _, 0 :: _, hp, hx => FunctionDecl.variablesAt_proper hp.1 hx
  | _ :: _, (_ + 1) :: _, hp, hx => FunctionDecl.variablesIn_proper hp.2 hx

end

/-! ### The two runs -/

/-- The variation that a renaming is for a machine. -/
def Renaming.variation (r : Renaming) (Δ : Depths) (h : ProperName r.old ∧ ProperName r.new) :
    Variation where
  depths := Δ
  known _ := True
  change := some (r.old, r.new)
  spans _ s s' := s' = s
  proper := by
    rintro x y ⟨⟩
    exact h

/-- Errors of a program and of one with other names are the same. -/
theorem Renaming.errors_eq {r : Renaming} {Δ : Depths} {h : ProperName r.old ∧ ProperName r.new}
    {e e' : RuntimeError} (he : Errors (r.variation Δ h) e e') : e' = e := by
  obtain ⟨fault, span⟩ := e
  obtain ⟨fault', span'⟩ := e'
  obtain rfl : fault' = fault := he.fault
  cases he.span with
  | none => rfl
  | some hs =>
    obtain ⟨-, rfl⟩ := hs
    rfl

/-- **Renaming a local variable changes nothing.** In a session that can be reached, let a program
declare `x` as a variable or a parameter in some local scope, and let `y` be a name that does not
occur in it. With `y` in place of `x` in that declaration and in all that refers to it, the program
passes the analysis with the same depths, and it has the same outcome and the same output. -/
theorem rename_local_variable (h : Reached ps held s)
    (hp : Program.ofParse (text.parse s.nextId) = .ok p) {way : List Nat} {x y : String}
    (hx : x ∈ Stmt.variablesIn p.body way) (hy : ProperName y) (hfresh : y ∉ Stmt.namesOf p.body) :
    let body := Stmt.renameAll ⟨p.depths, x, y⟩ (.only way) [] p.body
    Program.ofTrees body = .ok ⟨body, p.depths⟩ ∧
      ∀ f, (s.execute f ⟨body, p.depths⟩).1 = (s.execute f p).1 ∧
        (s.execute f ⟨body, p.depths⟩).2.machine.sink = (s.execute f p).2.machine.sink := by
  intro body
  obtain ⟨W, σ, ht, -⟩ := h.tracked
  obtain ⟨hbuilt, -⟩ := Program.ofParse_built hp
  have hm := ht.program hp
  let r : Renaming := ⟨p.depths, x, y⟩
  have hproper : ProperName r.old ∧ ProperName r.new :=
    ⟨Stmt.variablesIn_proper hbuilt.proper hx, hy⟩
  let v := r.variation (s.machine.depths.merge p.depths) hproper
  have hvaries : r.Varies v (Stmt.idsOf p.body) :=
    ⟨rfl, fun _ => rfl, fun _ _ => trivial, hm.depths.own p (.head _)⟩
  have hlike : Like v .here [] (.stmts p.body) (.stmts body) := by
    refine Stmt.like_renameAll (accepted_start hbuilt) hvaries hfresh (fun i way' hway => ?_)
      fun _ _ hchosen => by cases hchosen
    obtain rfl : i :: way' = way := by simpa [Choice.only] using hway
    exact hx
  constructor
  · unfold Program.ofTrees
    rw [analyze_like hbuilt (fun id hid => hvaries.depths id hid) hlike]
  · intro f
    have hstore := storesAkin_self (v := v) hm ⟨fun _ _ _ _ => trivial, fun _ _ _ _ => rfl⟩
    have hstart : Machines v (.ofWorld { W with texts := p :: W.texts })
        { s.machine with depths := s.machine.depths.merge p.depths }
        { s.machine with depths := s.machine.depths.merge p.depths } :=
      ⟨hstore, rfl, fun _ _ => ⟨rfl, rfl⟩, rfl, rfl, rfl, rfl, rfl⟩
    have hstands : Stands (.ofWorld { W with texts := p :: W.texts }) [] s.machine.frame := by
      rw [ht.frame]
      exact .ground hm.store.nonempty hm.store.root rfl
    have hruns := sequence_akin (runs_akin v f).2.2 hstart hstands hlike
    have hunbroken := ht.execute hp f
    unfold Session.execute
    unfold Machine.execute execAll at hunbroken ⊢
    dsimp only at hruns hunbroken ⊢
    generalize Run.sequence (exec f) p.body _ = a at hruns hunbroken
    generalize Run.sequence (exec f) body _ = a' at hruns
    cases hruns with
    | done _ hm _ _ => exact ⟨rfl, hm.sink⟩
    | failed _ hm _ he =>
      rw [Renaming.errors_eq he]
      exact ⟨rfl, hm.sink⟩
    | broken => cases hunbroken
    | exhausted => exact ⟨rfl, rfl⟩

/-- A variable that a closure has captured, with a variable of the same name in an inner block. The
program fails when it negates `nil`. -/
theorem rename_local_variable_captured :
    let text := CharStream.ofString
      "{ var a = nil; fun f(b) { print a; a = b; } f(true); { var a = f; a(nil); } print -a; }"
    let s := Session.initial fun _ => 0
    ∃ p, Program.ofParse (text.parse 0) = .ok p ∧ "a" ∈ Stmt.variablesIn p.body [0] ∧
      "c" ∉ Stmt.namesOf p.body ∧
      let body := Stmt.renameAll ⟨p.depths, "a", "c"⟩ (.only [0]) [] p.body
      Program.ofTrees body = .ok ⟨body, p.depths⟩ ∧
        ∀ f, (s.execute f ⟨body, p.depths⟩).1 = (s.execute f p).1 ∧
          (s.execute f ⟨body, p.depths⟩).2.machine.sink = (s.execute f p).2.machine.sink := by
  intro text s
  have hnames : (Program.ofParse (text.parse 0)).toOption.any (fun p =>
      decide ("a" ∈ Stmt.variablesIn p.body [0] ∧ "c" ∉ Stmt.namesOf p.body)) = true := by
    decide +kernel
  cases hp : Program.ofParse (text.parse 0) with
  | error e =>
    rw [hp] at hnames
    cases hnames
  | ok p =>
    rw [hp] at hnames
    obtain ⟨hx, hfresh⟩ := of_decide_eq_true hnames
    have h : Reached [] [] s := .start fun _ => 0
    exact ⟨p, rfl, hx, hfresh, rename_local_variable h hp hx ⟨by decide, by decide⟩ hfresh⟩

end ClassScript
