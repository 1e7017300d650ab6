/-
# Building one text behind another

Behind the statements of a program the analysis has no scope on its stack and nothing but
the depths that it has found. So the statements of another program that follow are analysed
as at the start of a text: two programs are one program, with the depths of both
(`ofTrees_append`).

Key theorem: `ofParse_join`. Two texts that can be built are built as one text.
-/
import ClassScript.Proofs.Session.Tracking
import ClassScript.Proofs.Syntax.Joining
import ClassScript.Proofs.Variant.Scopes

namespace ClassScript

open Scope Variant

/-! ### Analysis -/

namespace Scope.Analysis

theorem stmts_append (f : FunctionKind) (k : ClassKind) (ts : List Stmt) : ∀ (ss : List Stmt)
    (a : Analysis), a.stmts f k (ss ++ ts) = (a.stmts f k ss).stmts f k ts
  | [], _ => rfl
  | s :: ss, a => stmts_append f k ts ss (a.stmt f k s)

/-- Statements outside of all scopes leave no scope behind. -/
theorem stmts_outermost (f : FunctionKind) (k : ClassKind) : ∀ {ss : List Stmt} {a : Analysis},
    Stmt.ProperAll ss → a.scopes = [] → (a.stmts f k ss).scopes = []
  | [], _, _, ha => ha
  | s :: ss, a, ⟨hs, hss⟩, ha => by
    refine stmts_outermost f k (a := a.stmt f k s) hss ?_
    rw [stmt_scopes f k a s hs, ha]
    cases s.declares <;> rfl

end Scope.Analysis

/-- The spans of a program become others; no name is changed. -/
def respanned (Δ : Depths) (g : Span → Span) : Variation where
  depths := Δ
  known _ := True
  change := none
  spans
    | .earlier, s, s' => s' = s
    | .here, s, s' => s' = g s
  proper := by
    rintro x y ⟨⟩

/-- **A program with other spans is a variant.** -/
theorem like_respanned (Δ : Depths) (g : Span → Span) (ss : List Stmt) :
    Like (respanned Δ g) .here [] (.stmts ss) (.stmts (ss.map (Stmt.mapSpans g))) := by
  have hlike : Like (respanned Δ g) .here [] (.stmts ss) (.stmts (Stmt.mapSpansOf g ss)) :=
    Stmt.like_mapSpansOf (named_none rfl _ _) (by simp) (fun _ _ => trivial) (fun _ _ => rfl)
  rwa [Stmt.mapSpansOf_eq_map] at hlike

variable {p q : Program}

/-- **Two programs are one,** whatever the spans of the second one are. It has the depths of both. -/
theorem ofTrees_append (hp : p.Built) (hq : q.Built) (g : Span → Span) : ∃ Δ,
    Program.ofTrees (p.body ++ q.body.map (Stmt.mapSpans g)) =
      .ok ⟨p.body ++ q.body.map (Stmt.mapSpans g), Δ⟩ ∧
    ∀ id, Δ.find? id = (q.depths.find? id).or (p.depths.find? id) := by
  obtain ⟨hperrors, hpdepths⟩ := built_analysis hp
  obtain ⟨hqerrors, hqdepths⟩ := built_analysis hq
  -- behind the first program the table has its depths besides those that are found from then on
  let R : Depths → Depths → Prop := fun Δ Δ' =>
    ∀ id, Δ'.find? id = (Δ.find? id).or (p.depths.find? id)
  have hR : Recording R := by
    intro Δ Δ' id depth h other
    rw [Depths.find?_record, Depths.find?_record, h other]
    by_cases hid : id = other
    · rw [if_pos hid, if_pos hid]
      rfl
    · rw [if_neg hid, if_neg hid]
  have hstart : Variant.Mirrors (respanned q.depths g) R [] {} (Analysis.stmts .none .none {} p.body) := by
    refine ⟨?_, fun id => ?_, fun _ => hperrors⟩
    · rw [Analysis.stmts_outermost _ _ hp.proper rfl]
      exact .nil
    · rw [hpdepths]
      simp [Depths.find?]
  have hend := visit_mirrors hR (like_respanned q.depths g q.body) (accepted_start hq) hstart
  refine ⟨((Analysis.stmts .none .none {} p.body).stmts .none .none
    (q.body.map (Stmt.mapSpans g))).depths, ?_, fun id => ?_⟩
  · unfold Program.ofTrees analyze
    have hnone := hend.errors hqerrors
    change (Analysis.stmts _ _ _ _).errors = [] at hnone
    rw [Analysis.stmts_append]
    simp [hnone]
  · exact (hend.depths id).trans (congrArg (fun Δ : Depths => (Δ.find? id).or _) hqdepths)

/-! ### Texts -/

/-- The program in a text behind `k` characters. -/
def Program.shift (k : Nat) (q : Program) : Program :=
  { q with body := q.body.map (Stmt.mapSpans (.shift k)) }

/-- A text that can be built is parsed without an error. -/
theorem Program.ofParse_trees {r : Parse} (h : Program.ofParse r = .ok p) :
    r.errors = [] ∧ r.trees = p.body := by
  unfold Program.ofParse Parse.program at h
  by_cases he : r.errors.isEmpty
  · rw [if_pos he] at h
    refine ⟨List.isEmpty_iff.mp he, ?_⟩
    unfold Program.ofTrees at h
    dsimp only at h
    cases ha : analyze r.trees with
    | ok Δ =>
      rw [ha] at h
      cases h
      rfl
    | error errors =>
      rw [ha] at h
      cases h
  · rw [if_neg he] at h
    cases h

/-- A text that is parsed without an error is built of its statements. -/
theorem Program.ofParse_ok (trees : List Stmt) (n : Nat) :
    Program.ofParse ⟨trees.map .ok, n⟩ = Program.ofTrees trees := by
  have herrors : Parse.errors ⟨trees.map .ok, n⟩ = [] := by
    simp [Parse.errors, List.filterMap_map]
  have htrees : Parse.trees ⟨trees.map .ok, n⟩ = trees := by
    simp [Parse.trees, List.filterMap_map]
  unfold Program.ofParse Parse.program
  simp [herrors, htrees]

/-- **Two texts are built as one.** If two texts can be built one after the other, the text of both
with a line end between them can be built. Its statements are those of the first text and, moved
behind it, those of the second; its depths are those of both; and it takes the same identities. -/
theorem ofParse_join {P Q : String} {firstId : Nat}
    (hp : Program.ofParse ((CharStream.ofString P).parse firstId) = .ok p)
    (hq : Program.ofParse
      ((CharStream.ofString Q).parse ((CharStream.ofString P).parse firstId).nextId) = .ok q) :
    ∃ Δ, Program.ofParse ((CharStream.ofString (P ++ "\n" ++ Q)).parse firstId) =
        .ok ⟨p.body ++ (q.shift (P.length + 1)).body, Δ⟩ ∧
      (∀ id, Δ.find? id = (q.depths.find? id).or (p.depths.find? id)) ∧
      ((CharStream.ofString (P ++ "\n" ++ Q)).parse firstId).nextId =
        ((CharStream.ofString Q).parse ((CharStream.ofString P).parse firstId).nextId).nextId := by
  obtain ⟨Δ, hbuilt, hΔ⟩ := ofTrees_append (Program.ofParse_built hp).1 (Program.ofParse_built hq).1
    (.shift (P.length + 1))
  generalize hP : (CharStream.ofString P).parse firstId = r at hp hq ⊢
  generalize hQ : (CharStream.ofString Q).parse r.nextId = t at hq ⊢
  obtain ⟨hpe, hpt⟩ := Program.ofParse_trees hp
  obtain ⟨hqe, hqt⟩ := Program.ofParse_trees hq
  have htext : CharStream.ofString (P ++ "\n" ++ Q) = .ofList (P.toList ++ '\n' :: Q.toList) := by
    simp [CharStream.ofString]
  rw [htext, parse_join hP hQ hpe hqe]
  refine ⟨Δ, ?_, hΔ, rfl⟩
  rw [Program.ofParse_ok, hpt, hqt]
  exact hbuilt

end ClassScript
