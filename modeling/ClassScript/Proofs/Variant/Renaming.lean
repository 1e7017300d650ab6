/-
# Renaming local variables

A scope of a program is given by its place: the way down the tree to the block or the
function that it belongs to. `Stmt.rename` gives another name to the variable or the
parameter of a name that is declared in the chosen scopes, and to exactly those
references and assignments that the analysis has bound to it, which it tells by their
depths. Marks and spans stay.

Key theorem: `like_rename`. What renaming makes of a program without faults is a variant of
it, if the new name does not occur in the program.
-/
import ClassScript.Proofs.Scope.Accepted
import ClassScript.Proofs.Variant.Tree

namespace ClassScript

/-- A name and the one that takes its place, with the depths of the program. -/
structure Renaming where
  depths : Depths
  old : String
  new : String

namespace Renaming

/-- A name whose scope is chosen or not. -/
def name (r : Renaming) (chosen : Bool) (z : String) : String :=
  if chosen ∧ z = r.old then r.new else z

/-- A reference inside of scopes that are chosen or not, the innermost first. -/
def reference (r : Renaming) (M : List Bool) (m : Mark) (z : String) : String :=
  r.name (target M (r.depths.find? m.id)) z

end Renaming

/-- Which scopes of a tree are chosen, by their places. A place is the way down to a scope: the
number of a statement in a block, of a branch, or of a method in a class, level by level. -/
def Choice : Type := List Nat → Bool

namespace Choice

/-- The choice at a part. -/
def part (C : Choice) (i : Nat) : Choice := fun way => C (i :: way)

/-- The choice among the parts behind the first one. -/
def rest (C : Choice) : Choice
  | i :: way => C ((i + 1) :: way)
  | [] => false

/-- The choice of one scope. -/
def only (way : List Nat) : Choice := fun way' => way' == way

end Choice

mutual

/-- The expression with references renamed. -/
def Expr.rename (r : Renaming) (M : List Bool) : Expr → Expr
  | .literal m v => .literal m v
  | .group m e => .group m (e.rename r M)
  | .variable m x => .variable m (r.reference M m x)
  | .assign m x e => .assign m (r.reference M m x) (e.rename r M)
  | .unary m op e => .unary m op (e.rename r M)
  | .binary m op e f => .binary m op (e.rename r M) (f.rename r M)
  | .logical m op e f => .logical m op (e.rename r M) (f.rename r M)
  | .call m callee args => .call m (callee.rename r M) (Expr.renameAll r M args)
  | .get m e x => .get m (e.rename r M) x
  | .set m e x v => .set m (e.rename r M) x (v.rename r M)
  | .this m => .this m
  | .super m x => .super m x

def Expr.renameAll (r : Renaming) (M : List Bool) : List Expr → List Expr
  | [] => []
  | e :: es => e.rename r M :: Expr.renameAll r M es

end

mutual

/-- The statement with the variables of chosen scopes renamed. -/
def Stmt.rename (r : Renaming) (C : Choice) (M : List Bool) : Stmt → Stmt
  | .expression s e => .expression s (e.rename r M)
  | .print s e => .print s (e.rename r M)
  | .var s x init => .var s (r.name (M.headD false) x) (init.map (Expr.rename r M))
  | .block s body => .block s (Stmt.renameAll r C (C [] :: M) body)
  | .branch s c yes no =>
    .branch s (c.rename r M) (yes.rename r (C.part 0) M) (Stmt.optionalRename r (C.part 1) M no)
  | .loop s c body => .loop s (c.rename r M) (body.rename r (C.part 0) M)
  | .function s d => .function s (d.rename r C M)
  | .return s value => .return s (value.map (Expr.rename r M))
  | .classDecl s d none methods =>
    .classDecl s d none (FunctionDecl.renameAll r C (false :: M) methods)
  | .classDecl s d (some u) methods =>
    .classDecl s d (some ⟨u.mark, r.reference M u.mark u.name⟩)
      (FunctionDecl.renameAll r C (false :: false :: M) methods)

def Stmt.renameAll (r : Renaming) (C : Choice) (M : List Bool) : List Stmt → List Stmt
  | [] => []
  | s :: ss => s.rename r (C.part 0) M :: Stmt.renameAll r C.rest M ss

def Stmt.optionalRename (r : Renaming) (C : Choice) (M : List Bool) : Option Stmt → Option Stmt
  | none => none
  | some s => some (s.rename r C M)

/-- The function with the variables of chosen scopes renamed. Its parameters and its body are one
scope. -/
def FunctionDecl.rename (r : Renaming) (C : Choice) (M : List Bool) : FunctionDecl → FunctionDecl
  | .mk d params body =>
    .mk d (params.map fun p => ⟨r.name (C []) p.name, p.span⟩)
      (Stmt.renameAll r C (C [] :: M) body)

def FunctionDecl.renameAll (r : Renaming) (C : Choice) (M : List Bool) :
    List FunctionDecl → List FunctionDecl
  | [] => []
  | d :: ds => d.rename r (C.part 0) M :: FunctionDecl.renameAll r C.rest M ds

end

/-- The name of a variable that a statement declares. -/
def Stmt.varName? : Stmt → Option String
  | .var _ x _ => some x
  | _ => none

mutual

/-- The names of the variables and parameters that the scope at a place declares. -/
def Stmt.variablesAt : Stmt → List Nat → List String
  | .block _ body, [] => body.filterMap Stmt.varName?
  | .block _ body, i :: way => Stmt.variablesIn body (i :: way)
  | .branch _ _ yes _, 0 :: way => yes.variablesAt way
  | .branch _ _ _ (some no), 1 :: way => no.variablesAt way
  | .loop _ _ body, 0 :: way => body.variablesAt way
  | .function _ d, way => d.variablesAt way
  | .classDecl _ _ _ methods, way => FunctionDecl.variablesIn methods way
  | _, _ => []

/-- The same for a scope inside of one of the statements. -/
def Stmt.variablesIn : List Stmt → List Nat → List String
  | s :: _, 0 :: way => s.variablesAt way
  | _ :: ss, (i + 1) :: way => Stmt.variablesIn ss (i :: way)
  | _, _ => []

def FunctionDecl.variablesAt : FunctionDecl → List Nat → List String
  | .mk _ params body, [] => params.map Declared.name ++ body.filterMap Stmt.varName?
  | .mk _ _ body, i :: way => Stmt.variablesIn body (i :: way)

def FunctionDecl.variablesIn : List FunctionDecl → List Nat → List String
  | d :: _, 0 :: way => d.variablesAt way
  | _ :: ds, (i + 1) :: way => FunctionDecl.variablesIn ds (i :: way)
  | _, _ => []

end

mutual

/-- The names that an expression refers to. Names of properties are none of them. -/
def Expr.names : Expr → List String
  | .literal _ _ | .this _ | .super _ _ => []
  | .variable _ x => [x]
  | .assign _ x e => x :: e.names
  | .group _ e | .unary _ _ e | .get _ e _ => e.names
  | .binary _ _ l r | .logical _ _ l r => l.names ++ r.names
  | .call _ callee args => callee.names ++ Expr.namesOf args
  | .set _ e _ v => e.names ++ v.names

def Expr.namesOf : List Expr → List String
  | [] => []
  | e :: es => e.names ++ Expr.namesOf es

end

mutual

/-- The names that a statement refers to or declares, somewhere in it. -/
def Stmt.names : Stmt → List String
  | .expression _ e | .print _ e => e.names
  | .var _ x none => [x]
  | .var _ x (some e) => x :: e.names
  | .block _ body => Stmt.namesOf body
  | .branch _ c yes none => c.names ++ yes.names
  | .branch _ c yes (some no) => c.names ++ (yes.names ++ no.names)
  | .loop _ c body => c.names ++ body.names
  | .function _ d => d.name :: d.names
  | .return _ none => []
  | .return _ (some e) => e.names
  | .classDecl _ d none methods => d.name :: FunctionDecl.namesOf methods
  | .classDecl _ d (some u) methods => d.name :: u.name :: FunctionDecl.namesOf methods

def Stmt.namesOf : List Stmt → List String
  | [] => []
  | s :: ss => s.names ++ Stmt.namesOf ss

/-- The names of a function but its own, which for a method is the name of a property. -/
def FunctionDecl.names : FunctionDecl → List String
  | .mk _ params body => params.map Declared.name ++ Stmt.namesOf body

def FunctionDecl.namesOf : List FunctionDecl → List String
  | [] => []
  | d :: ds => d.names ++ FunctionDecl.namesOf ds

end

namespace Scope.Accepted

open Analysis

variable {Δ : Depths} {c : Context} {x : String}

/-- A name that the innermost scope holds is not declared again. -/
theorem not_declared_again : ∀ {ss : List Stmt} {c : Context} {scope : NameTable Readiness},
    Accepted Δ c (.stmts ss) → c.scopes.head? = some scope → scope.contains x = true →
    ∀ s ∈ ss, s.declares ≠ some x
  | s :: ss, c, scope, hacc, hscope, hx, s', hmem => by
    have hs := hacc.child (.head _)
    rcases List.mem_cons.mp hmem with rfl | hmem
    · intro hdecl
      have hnew := hs.declares_new hdecl scope hscope
      rw [hx] at hnew
      cases hnew
    · have hafter : (c.after (.stmt s)).scopes = settled c.scopes s.declares :=
        stmt_scopes c.function c.kind c.analysis s hs.proper
      obtain ⟨rest, hc⟩ : ∃ rest, c.scopes = scope :: rest := by
        cases hc : c.scopes with
        | nil =>
          rw [hc] at hscope
          cases hscope
        | cons t rest =>
          rw [hc] at hscope
          cases hscope
          exact ⟨rest, rfl⟩
      rw [hc] at hafter
      cases hd : s.declares with
      | none =>
        rw [hd] at hafter
        exact not_declared_again (hacc.child (.tail _ (.head _))) (congrArg List.head? hafter) hx s' hmem
      | some y =>
        rw [hd] at hafter
        refine not_declared_again (hacc.child (.tail _ (.head _))) (congrArg List.head? hafter) ?_ s' hmem
        simp [NameTable.contains_put, hx]

/-- **A name of a local scope that is declared as a variable is declared as nothing else.** -/
theorem variable_only : ∀ {ss : List Stmt} {c : Context}, Accepted Δ c (.stmts ss) →
    c.scopes ≠ [] → x ∈ ss.filterMap Stmt.varName? → ∀ s ∈ ss, s.declares = some x →
    s.varName? = some x
  | s :: ss, c, hacc, hne, hx, s', hmem, hdecl => by
    have hs := hacc.child (.head _)
    have hrest := hacc.child (.tail _ (.head _))
    have hafter : (c.after (.stmt s)).scopes = settled c.scopes s.declares :=
      stmt_scopes c.function c.kind c.analysis s hs.proper
    obtain ⟨scope, rest, hc⟩ := List.exists_cons_of_ne_nil hne
    -- behind the declaration of a name it is not declared again
    have hagain : s.declares = some x → ∀ s' ∈ ss, s'.declares ≠ some x := by
      intro hd
      rw [hd, hc] at hafter
      exact not_declared_again hrest (congrArg List.head? hafter) (by simp [NameTable.contains_put])
    have hvar : ∀ {t : Stmt}, t.varName? = some x → t.declares = some x := by
      intro t ht
      cases t <;> simp only [Stmt.varName?, reduceCtorEq] at ht
      exact ht
    rcases List.mem_cons.mp hmem with rfl | hlater
    · obtain ⟨t, ht, hxt⟩ := List.mem_filterMap.mp hx
      rcases List.mem_cons.mp ht with rfl | ht
      · exact hxt
      · exact absurd (hvar hxt) (hagain hdecl t ht)
    · have hx' : x ∈ ss.filterMap Stmt.varName? := by
        obtain ⟨t, ht, hxt⟩ := List.mem_filterMap.mp hx
        rcases List.mem_cons.mp ht with rfl | ht
        · exact absurd hdecl (hagain (hvar hxt) s' hlater)
        · exact List.mem_filterMap.mpr ⟨t, ht, hxt⟩
      refine variable_only hrest ?_ hx' s' hlater hdecl
      rw [hafter, hc]
      cases s.declares <;> simp [settled, onInnermost]

/-- **A name that is a parameter or a variable of a function is nothing else in its scope.** -/
theorem parameter_or_variable {d : FunctionDecl} (hacc : Accepted Δ c (.function d))
    (hx : x ∈ d.variablesAt []) : ∀ s ∈ d.body, s.declares = some x → s.varName? = some x := by
  obtain ⟨d, params, body⟩ := d
  have hbody := hacc.child (.head _)
  obtain ⟨scope, hscope, hfind⟩ := introduceAll_scopes params (push_scopes c.analysis)
  intro s hs hdecl
  rcases List.mem_append.mp hx with hx | hx
  · have hin : scope.contains x = true := by
      rw [NameTable.contains, hfind, if_pos hx]
      rfl
    exact absurd hdecl (not_declared_again hbody (congrArg List.head? hscope) hin s hs)
  · have hne : (params.foldl introduce c.analysis.push).scopes ≠ [] := by
      rw [hscope]
      exact List.cons_ne_nil _ _
    exact variable_only hbody hne hx s hs hdecl

end Scope.Accepted

/-! ### What renaming makes -/

open Scope

variable {v : Variation} {r : Renaming} {Δ : Depths}

namespace Renaming

/-- The variation is the renaming, and its depths are those that the renaming goes by. -/
structure Varies (r : Renaming) (v : Variation) (ids : List Nat) : Prop where
  change : v.change = some (r.old, r.new)
  spans : ∀ s, v.spans .here s s
  known : ∀ id ∈ ids, v.known id
  depths : ∀ id ∈ ids, v.depths.find? id = r.depths.find? id

namespace Varies

variable {ids ids' : List Nat} {z : String} {b : Bool} {M : List Bool}

theorem left (h : r.Varies v (ids ++ ids')) : r.Varies v ids :=
  ⟨h.change, h.spans, fun id hid => h.known id (List.mem_append_left _ hid),
    fun id hid => h.depths id (List.mem_append_left _ hid)⟩

theorem right (h : r.Varies v (ids ++ ids')) : r.Varies v ids' :=
  ⟨h.change, h.spans, fun id hid => h.known id (List.mem_append_right _ hid),
    fun id hid => h.depths id (List.mem_append_right _ hid)⟩

theorem named (h : r.Varies v ids) (hz : r.new ≠ z) : v.Named .here b z (r.name b z) := by
  refine ⟨?_, fun _ x y hc hzy => ?_⟩
  · rw [Variation.rename, h.change]
    rfl
  · rw [h.change] at hc
    cases hc
    exact hz hzy.symm

/-- A name that is not the one to be changed, where it could be, stays. -/
theorem named_kept (h : r.Varies v ids) (hz : r.new ≠ z) (hkept : b = true → z ≠ r.old) :
    v.Named .here b z z := by
  have hname : r.name b z = z := by
    unfold name
    by_cases hb : b = true
    · rw [if_neg fun hh => hkept hb hh.2]
    · rw [if_neg fun hh => hb hh.1]
  have hnamed := h.named (b := b) hz
  rwa [hname] at hnamed

theorem marked (h : r.Varies v ids) (m : Mark) : v.Marked .here m m := ⟨rfl, h.spans _⟩

theorem refers (h : r.Varies v ids) {m : Mark} (hid : m.id ∈ ids) (hz : r.new ≠ z) :
    v.Refers .here M m m z (r.reference M m z) := by
  refine ⟨h.marked m, h.known m.id hid, ?_⟩
  rw [h.depths m.id hid]
  exact h.named hz

end Varies
end Renaming

mutual

theorem Expr.like_rename {M : List Bool} : ∀ {e : Expr}, r.Varies v e.ids → r.new ∉ e.names →
    Like v .here M (.expr e) (.expr (e.rename r M))
  | .literal m _, h, _ => .literal (h.marked m)
  | .group m _, h, hn => .group (h.marked m) (Expr.like_rename h.left hn)
  | .variable _ _, h, hn => .variable (h.refers (.head _) (List.ne_of_not_mem_cons hn))
  | .assign _ _ _, h, hn =>
    .assign (h.right.refers (.head _) (List.ne_of_not_mem_cons hn))
      (Expr.like_rename h.left (List.not_mem_of_not_mem_cons hn))
  | .unary m _ _, h, hn => .unary (h.marked m) (Expr.like_rename h.left hn)
  | .binary m _ _ _, h, hn =>
    .binary (h.marked m) (Expr.like_rename h.left.left (mt (List.mem_append_left _) hn))
      (Expr.like_rename h.left.right (mt (List.mem_append_right _) hn))
  | .logical m _ _ _, h, hn =>
    .logical (h.marked m) (Expr.like_rename h.left.left (mt (List.mem_append_left _) hn))
      (Expr.like_rename h.left.right (mt (List.mem_append_right _) hn))
  | .call m _ _, h, hn =>
    .call (h.marked m) (Expr.like_rename h.left.left (mt (List.mem_append_left _) hn))
      (Expr.like_renameAll h.left.right (mt (List.mem_append_right _) hn))
  | .get m _ _, h, hn => .get (h.marked m) (Expr.like_rename h.left hn)
  | .set m _ _ _, h, hn =>
    .set (h.marked m) (Expr.like_rename h.left.left (mt (List.mem_append_left _) hn))
      (Expr.like_rename h.left.right (mt (List.mem_append_right _) hn))
  | .this m, h, _ => .this (h.marked m) (h.known m.id (.head _))
  | .super m _, h, _ => .super (h.marked m) (h.known m.id (.head _))

theorem Expr.like_renameAll {M : List Bool} : ∀ {es : List Expr}, r.Varies v (Expr.idsOf es) →
    r.new ∉ Expr.namesOf es → Like v .here M (.exprs es) (.exprs (Expr.renameAll r M es))
  | [], _, _ => .noExprs
  | _ :: _, h, hn =>
    .exprs (Expr.like_rename h.left (mt (List.mem_append_left _) hn))
      (Expr.like_renameAll h.right (mt (List.mem_append_right _) hn))

end

/-- Of the statements in a scope that is chosen, only a variable is declared under the old name. -/
def Renaming.Spares (r : Renaming) (M : List Bool) (s : Stmt) : Prop :=
  M.headD false = true → s.declares = some r.old → s.varName? = some r.old

/-- A statement that declares no variable declares another name than the old one. -/
theorem Renaming.Spares.ne {M : List Bool} {s : Stmt} {z : String} (h : r.Spares M s)
    (hs : s.varName? = none) (hz : s.declares = some z) : M.headD false = true → z ≠ r.old := by
  rintro hM rfl
  rw [h hM hz] at hs
  cases hs

theorem Renaming.Spares.of_none {M : List Bool} {s : Stmt} (h : s.declares = none) :
    r.Spares M s := fun _ hd => by
  rw [h] at hd
  cases hd

mutual

theorem Stmt.like_rename : ∀ {s : Stmt} {C : Choice} {M : List Bool} {c : Context},
    Accepted Δ c (.stmt s) → r.Varies v s.ids → r.new ∉ s.names →
    (∀ way, C way = true → r.old ∈ s.variablesAt way) → r.Spares M s →
    Like v .here M (.stmt s) (.stmt (s.rename r C M))
  | .expression s e, _, _, _, _, h, hn, _, _ => .expression (h.spans s) (Expr.like_rename h hn)
  | .print s e, _, _, _, _, h, hn, _, _ => .print (h.spans s) (Expr.like_rename h hn)
  | .var s x none, _, _, _, _, h, hn, _, _ =>
    .var (h.spans s) (h.named (List.ne_of_not_mem_cons hn))
  | .var s x (some e), _, _, _, _, h, hn, _, _ =>
    .varInit (h.spans s) (h.named (List.ne_of_not_mem_cons hn))
      (Expr.like_rename h (List.not_mem_of_not_mem_cons hn))
  | .block s body, C, M, c, hacc, h, hn, hC, _ => by
    have hbody := hacc.child (.head _)
    refine .block (C []) (h.spans s) (Stmt.like_renameAll hbody h hn (fun i way => hC (i :: way)) ?_)
    exact fun t ht hchosen => hbody.variable_only (List.cons_ne_nil _ _) (hC [] hchosen) t ht
  | .branch s e yes none, C, M, c, hacc, h, hn, hC, _ => by
    obtain ⟨-, ⟨hyes, -⟩, -⟩ := hacc.proper
    exact .branch (h.spans s) (Expr.like_rename h.left.left (mt (List.mem_append_left _) hn))
      (Stmt.like_rename (hacc.child (.tail _ (.head _))) h.left.right
        (mt (List.mem_append_right _) hn) (fun way => hC (0 :: way)) (.of_none hyes))
  | .branch s e yes (some no), C, M, c, hacc, h, hn, hC, _ => by
    obtain ⟨-, ⟨hyes, -⟩, hno, -⟩ := hacc.proper
    have hn' := mt (List.mem_append_right _) hn
    exact .branchElse (h.spans s) (Expr.like_rename h.left.left (mt (List.mem_append_left _) hn))
      (Stmt.like_rename (hacc.child (.tail _ (.head _))) h.left.right
        (mt (List.mem_append_left _) hn') (fun way => hC (0 :: way)) (.of_none hyes))
      (Stmt.like_rename (hacc.child (.tail _ (.tail _ (.head _)))) h.right
        (mt (List.mem_append_right _) hn') (fun way => hC (1 :: way)) (.of_none hno))
  | .loop s e body, C, M, c, hacc, h, hn, hC, _ => by
    obtain ⟨-, hbody, -⟩ := hacc.proper
    exact .loop (h.spans s) (Expr.like_rename h.left (mt (List.mem_append_left _) hn))
      (Stmt.like_rename (hacc.child (.tail _ (.head _))) h.right
        (mt (List.mem_append_right _) hn) (fun way => hC (0 :: way)) (.of_none hbody))
  | .function s d, C, M, c, hacc, h, hn, hC, hspares => by
    have hname : (d.rename r C M).name = d.name := by
      cases d
      rfl
    refine .function (h.spans s) ?_ (FunctionDecl.like_rename (hacc.child (.head _)) h
      (List.not_mem_of_not_mem_cons hn) hC)
    rw [hname]
    exact h.named_kept (List.ne_of_not_mem_cons hn) (hspares.ne rfl rfl)
  | .return s none, _, _, _, _, h, _, _, _ => .return (h.spans s)
  | .return s (some e), _, _, _, _, h, hn, _, _ => .returnValue (h.spans s) (Expr.like_rename h hn)
  | .classDecl s d none ms, C, M, c, hacc, h, hn, hC, hspares => by
    refine .classDecl (h.spans s) ⟨?_, h.spans d.span⟩ rfl (FunctionDecl.like_renameAll
      (hacc.child (.head _)) h (List.not_mem_of_not_mem_cons hn) hC)
    exact h.named_kept (List.ne_of_not_mem_cons hn) (hspares.ne rfl rfl)
  | .classDecl s d (some u) ms, C, M, c, hacc, h, hn, hC, hspares => by
    have hn' := List.not_mem_of_not_mem_cons hn
    have hids : r.Varies v ([u.mark.id] ++ FunctionDecl.idsOf ms) := h
    refine .derived (h.spans s) ⟨?_, h.spans d.span⟩ rfl
      (.variable (hids.left.refers (.head _) (List.ne_of_not_mem_cons hn')))
      (FunctionDecl.like_renameAll (hacc.child (.tail _ (.head _))) hids.right
        (List.not_mem_of_not_mem_cons hn') hC)
    exact h.named_kept (List.ne_of_not_mem_cons hn) (hspares.ne rfl rfl)

/-- **Renamed statements are a variant of the statements,** where the analysis found no fault. -/
theorem Stmt.like_renameAll : ∀ {ss : List Stmt} {C : Choice} {M : List Bool} {c : Context},
    Accepted Δ c (.stmts ss) → r.Varies v (Stmt.idsOf ss) → r.new ∉ Stmt.namesOf ss →
    (∀ i way, C (i :: way) = true → r.old ∈ Stmt.variablesIn ss (i :: way)) →
    (∀ s ∈ ss, r.Spares M s) → Like v .here M (.stmts ss) (.stmts (Stmt.renameAll r C M ss))
  | [], _, _, _, _, _, _, _, _ => .noStmts
  | s :: _, _, _, _, hacc, h, hn, hC, hspares =>
    .stmts (Stmt.like_rename (hacc.child (.head _)) h.left (mt (List.mem_append_left _) hn)
        (fun way => hC 0 way) (hspares s (.head _)))
      (Stmt.like_renameAll (hacc.child (.tail _ (.head _))) h.right
        (mt (List.mem_append_right _) hn) (fun i way => hC (i + 1) way)
        fun t ht => hspares t (.tail _ ht))

theorem FunctionDecl.like_rename : ∀ {d : FunctionDecl} {C : Choice} {M : List Bool} {c : Context},
    Accepted Δ c (.function d) → r.Varies v d.ids → r.new ∉ d.names →
    (∀ way, C way = true → r.old ∈ d.variablesAt way) →
    Like v .here M (.function d) (.function (d.rename r C M))
  | .mk d params body, C, M, c, hacc, h, hn, hC => by
    have hparams : List.Forall₂ (v.Declares .here (C [])) params
        (params.map fun p => ⟨r.name (C []) p.name, p.span⟩) := by
      rw [List.forall₂_map_right_iff]
      refine List.forall₂_same.mpr fun p hp => ⟨h.named fun heq => hn ?_, h.spans p.span⟩
      exact List.mem_append_left _ (heq ▸ List.mem_map_of_mem hp)
    refine .code (C []) rfl (h.spans d.span) hparams (Stmt.like_renameAll (hacc.child (.head _)) h
      (mt (List.mem_append_right _) hn) (fun i way => hC (i :: way)) ?_)
    exact fun t ht hchosen => hacc.parameter_or_variable (hC [] hchosen) t ht

theorem FunctionDecl.like_renameAll : ∀ {ds : List FunctionDecl} {C : Choice} {M : List Bool}
    {c : Context}, Accepted Δ c (.methods ds) → r.Varies v (FunctionDecl.idsOf ds) →
    r.new ∉ FunctionDecl.namesOf ds →
    (∀ way, C way = true → r.old ∈ FunctionDecl.variablesIn ds way) →
    Like v .here M (.methods ds) (.methods (FunctionDecl.renameAll r C M ds))
  | [], _, _, _, _, _, _, _ => .noMethods
  | _ :: _, _, _, _, hacc, h, hn, hC =>
    .methods (FunctionDecl.like_rename (hacc.child (.head _)) h.left
        (mt (List.mem_append_left _) hn) fun way => hC (0 :: way))
      (FunctionDecl.like_renameAll (hacc.child (.tail _ (.head _))) h.right
        (mt (List.mem_append_right _) hn) fun
          | i :: way => hC ((i + 1) :: way)
          | [] => fun hC => by cases hC)

end

end ClassScript
