/-
# The grammar is unambiguous

A sequence of tokens is derived in one way. The parser gives one answer, and whatever
derivation there is has the tree of that answer (`Sentence.completes`), so where a
construct ends and which tree it has is settled by running the parser on the tokens
(`Expression.split`, `Sentence.split`). What the tree does not show is which loops were
written as a `for`; the first token of each statement tells.

Key theorems: `Sentence.unique`, `Program.unique`.
-/
import ClassScript.Proofs.Syntax.StatementCompleteness

namespace ClassScript
namespace Parser

open Grammar

variable {α β : Type} {c : Cursor} {v v' : List Token}

/-! ### One answer -/

theorem Faces.unique (h : Faces c v) (h' : Faces c v') : v = v' := by
  obtain ⟨ts, hr, rfl⟩ := h
  obtain ⟨ts', hr', rfl⟩ := h'
  have hts : ts = ts' := by
    rw [hr] at hr'
    exact List.map_injective_iff.mpr (fun _ _ => Except.ok.inj) hr'
  rw [hts]

theorem meets_unique {p : Parser α} {g : α → β} {b b' : β} (hp : p c ≠ .exhausted)
    (h : (p c).Meets fun a c' => g a = b ∧ Faces c' v)
    (h' : (p c).Meets fun a c' => g a = b' ∧ Faces c' v') : b = b' ∧ v = v' := by
  cases hc : p c with
  | ok a c₁ =>
    rw [hc] at h h'
    exact ⟨h.1.symm.trans h'.1, h.2.unique h'.2⟩
  | refused => rw [hc] at h; exact h.elim
  | exhausted => exact absurd hc hp

/-- A cursor in front of the tokens `w`. -/
def cursorOf (w : List Token) : Cursor := { rest := w.map fun t => .ok ⟨t, .blank, 0⟩ }

theorem faces_cursorOf (w : List Token) : Faces (cursorOf w) w :=
  ⟨w.map fun t => ⟨t, .blank, 0⟩, by simp [cursorOf, Function.comp_def], by
    simp [Function.comp_def]⟩

theorem length_cursorOf (w : List Token) : (cursorOf w).rest.length = w.length := by
  simp [cursorOf]

end Parser

namespace Grammar

open ClassScript.Parser

variable {u u' v v' w w' : List Token} {e e' : Expr} {p p' : Phrase}

theorem Expression.split (h : Expression .assignment u e) (h' : Expression .assignment u' e')
    (hv : Follows 8 v) (hv' : Follows 8 v') (heq : u ++ v = u' ++ v') :
    e = e' ∧ u = u' ∧ v = v' := by
  have hc := faces_cursorOf (u ++ v)
  have hfuel := expression_answers (3 * (u ++ v).length + 4) _ (Nat.le_refl _) (cursorOf (u ++ v))
    (Nat.le_of_eq (length_cursorOf _))
  obtain ⟨rfl, rfl⟩ := meets_unique hfuel (expression_completes h _ hv hc)
    (expression_completes h' _ hv' (heq ▸ hc))
  exact ⟨rfl, List.append_cancel_right heq, rfl⟩

theorem Optional.split {o o' : Option Expr} {s : Symbol}
    (h : Optional (Expression .assignment) u o) (h' : Optional (Expression .assignment) u' o')
    (hs : (Token.symbol s).binding = 8) (hbegins : (Token.symbol s).beginsExpression = false)
    (heq : u ++ .symbol s :: v = u' ++ .symbol s :: v') : o = o' ∧ v = v' := by
  cases h with
  | none =>
    cases h' with
    | none => exact ⟨rfl, (List.cons.inj heq).2⟩
    | some he' =>
      obtain ⟨t, w, rfl, ht, -⟩ := he'.begins
      obtain ⟨rfl, -⟩ := List.cons.inj heq
      rw [hbegins] at ht
      cases ht
  | some he =>
    cases h' with
    | none =>
      obtain ⟨t, w, rfl, ht, -⟩ := he.begins
      obtain ⟨rfl, -⟩ := List.cons.inj heq
      rw [hbegins] at ht
      cases ht
    | some he' =>
      obtain ⟨rfl, -, hv⟩ := he.split he' (hs ▸ .head _ v) (hs ▸ .head _ v') heq
      exact ⟨rfl, (List.cons.inj hv).2⟩

/-- Two declarations in front of what does not go on with them are one. -/
theorem Sentence.split_declaration (h : Sentence .declaration w p)
    (h' : Sentence .declaration w' p') (hv : p.endsOpen = true → NoElse v)
    (hv' : p'.endsOpen = true → NoElse v') (heq : w ++ v = w' ++ v') :
    p.stmt = p'.stmt ∧ w = w' ∧ v = v' := by
  have hc := faces_cursorOf (w ++ v)
  have hfuel := declaration_answers (3 * (w ++ v).length + 6) _ (Nat.le_refl _)
    (cursorOf (w ++ v)) (Nat.le_of_eq (length_cursorOf _))
  obtain ⟨hp, rfl⟩ := meets_unique hfuel (Sentence.completes h hv hc)
    (Sentence.completes h' hv' (heq ▸ hc))
  exact ⟨hp, List.append_cancel_right heq, rfl⟩

/-- Two statements in front of what does not go on with them are one. -/
theorem Sentence.split_statement (h : Sentence .statement w p)
    (h' : Sentence .statement w' p') (hv : p.endsOpen = true → NoElse v)
    (hv' : p'.endsOpen = true → NoElse v') (heq : w ++ v = w' ++ v') :
    p.stmt = p'.stmt ∧ w = w' ∧ v = v' :=
  Sentence.split_declaration (.ofStatement h) (.ofStatement h') hv hv' heq

theorem Sentence.endsOpen_function (h : Sentence .function w p) : p.endsOpen = false := by
  cases h
  rfl

theorem Sentence.split_function (h : Sentence .function w p) (h' : Sentence .function w' p')
    (heq : w ++ v = w' ++ v') : p.stmt = p'.stmt ∧ w = w' ∧ v = v' := by
  have hne {p : Phrase} (hp : p.endsOpen = false) {v : List Token} (h : p.endsOpen = true) :
      NoElse v := by simp [hp] at h
  have := Sentence.split_declaration (.funDecl h) (.funDecl h') (hne h.endsOpen_function)
    (hne h'.endsOpen_function) (congrArg (.symbol .funWord :: ·) heq)
  exact ⟨this.1, (List.cons.inj this.2.1).2, this.2.2⟩

theorem Sentence.split_init (h : Sentence .forInit w p) (h' : Sentence .forInit w' p')
    (heq : w ++ v = w' ++ v') : w = w' ∧ v = v' := by
  have hdecl {w p} (h : Sentence .forInit w p) :
      Sentence .declaration w p ∧ ∀ {v}, p.endsOpen = true → NoElse v := by
    cases h with
    | initVar h => exact ⟨.ofVarDecl h, fun hp => by cases h; cases hp⟩
    | initExpr h => exact ⟨.ofStatement (.ofExprStmt h), fun hp => by cases h; cases hp⟩
  exact (Sentence.split_declaration (hdecl h).1 (hdecl h').1 (hdecl h).2 (hdecl h').2 heq).2

/-! ### One derivation -/

theorem Category.Begins.ne_else {t : Token} (h : Category.Begins .declaration t) :
    t ≠ .symbol .elseWord := by
  rintro rfl
  cases h

/-- Two sequences of items with the same tokens are one, if each item of the first is. -/
theorem split_items {γ : Type} {S : List Token → γ → Prop} {B F : Token → Prop}
    (hbegins : ∀ {w a}, S w a → ∃ t u, w = t :: u ∧ B t) (hF : ∀ {t}, B t → F t)
    (hsplit : ∀ {w a w' a' t t' v v'}, S w a → S w' a' → F t → F t' →
      w ++ t :: v = w' ++ t' :: v' → w = w')
    {t : Token} (ht : F t) (htB : ¬ B t) :
    ∀ (xs ys : List (List Token × γ)), (∀ x ∈ xs, S x.1 x.2) → (∀ y ∈ ys, S y.1 y.2) →
      (∀ x ∈ xs, ∀ a, S x.1 a → a = x.2) →
      (xs.map Prod.fst).flatten ++ t :: v = (ys.map Prod.fst).flatten ++ t :: v' →
      xs = ys ∧ v = v'
  | [], [], _, _, _, heq => ⟨rfl, (List.cons.inj heq).2⟩
  | [], y :: ys, _, hy, _, heq => by
    obtain ⟨t', u, hu, hB⟩ := hbegins (hy y (by simp))
    simp only [List.map_nil, List.flatten_nil, List.nil_append, List.map_cons, List.flatten_cons, hu,
      List.cons_append, List.cons.injEq] at heq
    exact absurd (heq.1 ▸ hB) htB
  | x :: xs, [], hx, _, _, heq => by
    obtain ⟨t', u, hu, hB⟩ := hbegins (hx x (by simp))
    simp only [List.map_nil, List.flatten_nil, List.nil_append, List.map_cons, List.flatten_cons, hu,
      List.cons_append, List.cons.injEq] at heq
    exact absurd (heq.1 ▸ hB) htB
  | x :: xs, y :: ys, hx, hy, hone, heq => by
    -- what follows an item is the next one or what ends them all
    have hnext : ∀ (zs : List (List Token × γ)) (v : List Token), (∀ z ∈ zs, S z.1 z.2) →
        ∃ t' u, (zs.map Prod.fst).flatten ++ t :: v = t' :: u ∧ F t' := by
      intro zs v hz
      cases zs with
      | nil => exact ⟨t, v, rfl, ht⟩
      | cons z zs =>
        obtain ⟨t', u, hu, hB⟩ := hbegins (hz z (by simp))
        refine ⟨t', u ++ (zs.map Prod.fst).flatten ++ t :: v, ?_, hF hB⟩
        simp only [List.map_cons, List.flatten_cons, hu, List.cons_append]
    have hxs : ∀ z ∈ xs, S z.1 z.2 := fun z hz => hx z (List.mem_cons_of_mem _ hz)
    have hys : ∀ z ∈ ys, S z.1 z.2 := fun z hz => hy z (List.mem_cons_of_mem _ hz)
    obtain ⟨t₁, u₁, h₁, hF₁⟩ := hnext xs v hxs
    obtain ⟨t₂, u₂, h₂, hF₂⟩ := hnext ys v' hys
    simp only [List.map_cons, List.flatten_cons, List.append_assoc] at heq
    have hw : x.1 = y.1 :=
      hsplit (hx x (by simp)) (hy y (by simp)) hF₁ hF₂ (by rw [← h₁, ← h₂]; exact heq)
    rw [hw] at heq
    obtain ⟨rfl, rfl⟩ := split_items (S := S) hbegins hF hsplit ht htB xs ys hxs hys
      (fun z hz => hone z (List.mem_cons_of_mem _ hz)) (List.append_cancel_left heq)
    have hsnd : y.2 = x.2 := hone x (by simp) y.2 (hw ▸ hy y (by simp))
    exact ⟨by rw [Prod.ext hw hsnd.symm], rfl⟩

/-- Two bodies with the same tokens are one, if each declaration of the first is. -/
theorem split_body {xs ys : List (List Token × Phrase)}
    (hx : ∀ x ∈ xs, Sentence .declaration x.1 x.2) (hy : ∀ y ∈ ys, Sentence .declaration y.1 y.2)
    (hone : ∀ x ∈ xs, ∀ p, Sentence .declaration x.1 p → p = x.2)
    (heq : (xs.map Prod.fst).flatten ++ .symbol .closeBrace :: v =
      (ys.map Prod.fst).flatten ++ .symbol .closeBrace :: v') : xs = ys ∧ v = v' :=
  split_items (F := (· ≠ .symbol .elseWord)) (fun h => h.begins) (fun h => h.ne_else)
    (fun {_ _ _ _ t t' v v'} h h' hF hF' heq => by
      have hv : NoElse (t :: v) := hF
      have hv' : NoElse (t' :: v') := hF'
      exact (h.split_declaration h' (fun _ => hv) (fun _ => hv') heq).2.1)
    (by simp) (by simp [Category.Begins, Token.beginsDeclaration, Token.beginsStatement,
      Token.beginsExpression]) xs ys hx hy hone heq

/-- Two lists of methods with the same tokens are one, if each method of the first is. -/
theorem split_methods {xs ys : List (List Token × FunctionPhrase)}
    (hx : ∀ x ∈ xs, Sentence .function x.1 (.function x.2))
    (hy : ∀ y ∈ ys, Sentence .function y.1 (.function y.2))
    (hone : ∀ x ∈ xs, ∀ p, Sentence .function x.1 p → p = .function x.2)
    (heq : (xs.map Prod.fst).flatten ++ .symbol .closeBrace :: v =
      (ys.map Prod.fst).flatten ++ .symbol .closeBrace :: v') : xs = ys ∧ v = v' :=
  split_items (S := fun w p => Sentence .function w (.function p)) (F := fun _ => True)
    (fun h => h.begins) (fun _ => trivial)
    (fun h h' _ _ heq => (h.split_function h' heq).2.1) trivial (by simp [Category.Begins]) xs ys
    hx hy (fun x hx p hp => Phrase.function.inj (hone x hx _ hp)) heq

/-- What begins with `t` is derived by no nonterminal that does not. -/
theorem Sentence.begins_of_eq {k : Category} {t : Token} (h : Sentence k w p) (hw : t :: u = w) :
    k.Begins t := by
  obtain ⟨t', u', hu, ht⟩ := h.begins
  obtain ⟨rfl, -⟩ := List.cons.inj (hw.trans hu)
  exact ht

/-- The phrase of a derivation is that of every other one. -/
def Sole (k : Category) (w : List Token) (p : Phrase) : Prop := ∀ p', Sentence k w p' → p' = p

namespace Sole

/-! #### Statements -/

theorem var {init : Option Expr} (x : String) (h : Initializer w init) :
    Sole .varDecl (.symbol .varWord :: .name x :: (w ++ [.symbol .semicolon])) (.var x init) := by
  intro p' h'
  have hstmt := (Sentence.split_declaration (v := []) (.ofVarDecl (.var x h)) (.ofVarDecl h')
    (by simp [Phrase.endsOpen]) (fun _ => by simp [NoElse]) rfl).1
  generalize Token.symbol .varWord :: .name x :: (w ++ [.symbol .semicolon]) = w' at h'
  cases h' with
  | var x' h' => simpa [Phrase.stmt, eq_comm] using hstmt

theorem expression (h : Expression .assignment w e) :
    Sole .exprStmt (w ++ [.symbol .semicolon]) (.expression e) := by
  intro p' h'
  generalize hw : w ++ [.symbol .semicolon] = w' at h'
  cases h' with
  | expression h' =>
    obtain ⟨rfl, -, -⟩ := h.split h' (.head (.symbol .semicolon) _) (.head (.symbol .semicolon) _) hw
    rfl

theorem ofExprStmt (hw : Sentence .exprStmt w p) (h : Sole .exprStmt w p) :
    Sole .statement w p := by
  intro p' h'
  cases h' with
  | ofExprStmt h' => exact h p' h'
  | print | «return» | block | branch | branchElse | loop | forBare | forInit =>
    exact absurd (hw.begins_of_eq rfl) (by simp [Category.Begins, Token.beginsExpression])

theorem print (h : Expression .assignment w e) :
    Sole .statement (.symbol .printWord :: (w ++ [.symbol .semicolon])) (.print e) := by
  intro p' h'
  generalize hw : Token.symbol .printWord :: (w ++ [.symbol .semicolon]) = w' at h'
  cases h' with
  | print h' =>
    obtain ⟨rfl, -, -⟩ := h.split h' (.head (.symbol .semicolon) _) (.head (.symbol .semicolon) _)
      (List.cons.inj hw).2
    rfl
  | ofExprStmt h' => exact absurd (h'.begins_of_eq hw) (by simp [Category.Begins,
      Token.beginsExpression])
  | _ => simp at hw

theorem «return» {o : Option Expr} (h : Optional (Expression .assignment) w o) :
    Sole .statement (.symbol .returnWord :: (w ++ [.symbol .semicolon])) (.return o) := by
  intro p' h'
  generalize hw : Token.symbol .returnWord :: (w ++ [.symbol .semicolon]) = w' at h'
  cases h' with
  | «return» h' =>
    obtain ⟨rfl, -⟩ := h.split h' rfl rfl (List.cons.inj hw).2
    rfl
  | ofExprStmt h' => exact absurd (h'.begins_of_eq hw) (by simp [Category.Begins,
      Token.beginsExpression])
  | _ => simp at hw

theorem block (body : List (List Token × Phrase))
    (hbody : ∀ d ∈ body, Sentence .declaration d.1 d.2)
    (hall : ∀ d ∈ body, Sole .declaration d.1 d.2) :
    Sole .statement (.symbol .openBrace :: ((body.map Prod.fst).flatten ++ [.symbol .closeBrace]))
      (.block (body.map Prod.snd)) := by
  intro p' h'
  generalize hw : Token.symbol .openBrace :: ((body.map Prod.fst).flatten ++
    [.symbol .closeBrace]) = w' at h'
  cases h' with
  | block body' hbody' =>
    obtain ⟨rfl, -⟩ := split_body hbody hbody' hall (List.cons.inj hw).2
    rfl
  | ofExprStmt h' => exact absurd (h'.begins_of_eq hw) (by simp [Category.Begins,
      Token.beginsExpression])
  | _ => simp at hw

theorem branch {yes : Phrase} (h : Expression .assignment u e) (hw : Sentence .statement w yes)
    (hyes : Sole .statement w yes) :
    Sole .statement (.symbol .ifWord :: .symbol .openParen :: (u ++ .symbol .closeParen :: w))
      (.branch e yes) := by
  intro p' h'
  generalize hw' : Token.symbol .ifWord :: .symbol .openParen ::
    (u ++ .symbol .closeParen :: w) = w' at h'
  cases h' with
  | branch h' hs' =>
    simp only [List.cons.injEq, true_and] at hw'
    obtain ⟨rfl, rfl, hv⟩ := h.split h' (.head (.symbol .closeParen) _)
      (.head (.symbol .closeParen) _) hw'
    obtain ⟨-, rfl⟩ := List.cons.inj hv
    rw [hyes _ hs']
  | branchElse h' hs' hopen =>
    simp only [List.cons.injEq, true_and] at hw'
    obtain ⟨rfl, rfl, hv⟩ := h.split h' (.head (.symbol .closeParen) _)
      (.head (.symbol .closeParen) _) hw'
    simp only [List.cons.injEq, true_and] at hv
    -- the statement behind the condition would end in front of the `else`
    have := hw.split_statement (v := []) hs' (fun _ => by simp [NoElse])
      (fun h => by simp [hopen] at h) (by rw [List.append_nil]; exact hv)
    exact absurd this.2.2 (by simp)
  | ofExprStmt h' => exact absurd (h'.begins_of_eq hw') (by simp [Category.Begins,
      Token.beginsExpression])
  | _ => simp at hw'

theorem branchElse {y z : List Token} {yes no : Phrase} (h : Expression .assignment u e)
    (hy : Sentence .statement y yes) (hopen : yes.endsOpen = false)
    (hyes : Sole .statement y yes) (hno : Sole .statement z no) :
    Sole .statement
      (.symbol .ifWord :: .symbol .openParen ::
        (u ++ .symbol .closeParen :: (y ++ .symbol .elseWord :: z)))
      (.branchElse e yes no) := by
  intro p' h'
  generalize hw : Token.symbol .ifWord :: .symbol .openParen ::
    (u ++ .symbol .closeParen :: (y ++ .symbol .elseWord :: z)) = w' at h'
  cases h' with
  | branch h' hs' =>
    simp only [List.cons.injEq, true_and] at hw
    obtain ⟨rfl, rfl, hv⟩ := h.split h' (.head (.symbol .closeParen) _)
      (.head (.symbol .closeParen) _) hw
    simp only [List.cons.injEq, true_and] at hv
    have := hs'.split_statement (v := []) hy (fun _ => by simp [NoElse])
      (fun h => by simp [hopen] at h) (by rw [List.append_nil]; exact hv.symm)
    exact absurd this.2.2 (by simp)
  | branchElse h' hs' hopen' hn' =>
    simp only [List.cons.injEq, true_and] at hw
    obtain ⟨rfl, rfl, hv⟩ := h.split h' (.head (.symbol .closeParen) _)
      (.head (.symbol .closeParen) _) hw
    simp only [List.cons.injEq, true_and] at hv
    obtain ⟨-, rfl, hz⟩ := hy.split_statement hs' (fun h => by simp [hopen] at h)
      (fun h => by simp [hopen'] at h) hv
    obtain ⟨-, rfl⟩ := List.cons.inj hz
    rw [hyes _ hs', hno _ hn']
  | ofExprStmt h' => exact absurd (h'.begins_of_eq hw) (by simp [Category.Begins,
      Token.beginsExpression])
  | _ => simp at hw

theorem loop {body : Phrase} (h : Expression .assignment u e) (hbody : Sole .statement w body) :
    Sole .statement (.symbol .whileWord :: .symbol .openParen :: (u ++ .symbol .closeParen :: w))
      (.loop e body) := by
  intro p' h'
  generalize hw : Token.symbol .whileWord :: .symbol .openParen ::
    (u ++ .symbol .closeParen :: w) = w' at h'
  cases h' with
  | loop h' hs' =>
    simp only [List.cons.injEq, true_and] at hw
    obtain ⟨rfl, rfl, hv⟩ := h.split h' (.head (.symbol .closeParen) _)
      (.head (.symbol .closeParen) _) hw
    obtain ⟨-, rfl⟩ := List.cons.inj hv
    rw [hbody _ hs']
  | ofExprStmt h' => exact absurd (h'.begins_of_eq hw) (by simp [Category.Begins,
      Token.beginsExpression])
  | _ => simp at hw

/-- The part of a `for` statement behind its initializer. -/
theorem forTail {y y' z z' x x' : List Token} {o o' i i' : Option Expr} {body body' : Phrase}
    (ho : Optional (Expression .assignment) y o) (ho' : Optional (Expression .assignment) y' o')
    (hi : Optional (Expression .assignment) z i) (hi' : Optional (Expression .assignment) z' i')
    (hbody : Sole .statement x body) (hbody' : Sentence .statement x' body')
    (heq : y ++ .symbol .semicolon :: (z ++ .symbol .closeParen :: x) =
      y' ++ .symbol .semicolon :: (z' ++ .symbol .closeParen :: x')) :
    o' = o ∧ i' = i ∧ body' = body := by
  obtain ⟨rfl, hv⟩ := ho.split ho' rfl rfl heq
  obtain ⟨rfl, rfl⟩ := hi.split hi' rfl rfl hv
  exact ⟨rfl, rfl, hbody _ hbody'⟩

theorem forBare {y z : List Token} {o i : Option Expr} {body : Phrase}
    (ho : Optional (Expression .assignment) y o) (hi : Optional (Expression .assignment) z i)
    (hbody : Sole .statement w body) :
    Sole .statement
      (.symbol .forWord :: .symbol .openParen :: .symbol .semicolon ::
        (y ++ .symbol .semicolon :: (z ++ .symbol .closeParen :: w)))
      (.forLoop none o i body) := by
  intro p' h'
  generalize hw : Token.symbol .forWord :: .symbol .openParen :: .symbol .semicolon ::
    (y ++ .symbol .semicolon :: (z ++ .symbol .closeParen :: w)) = w' at h'
  cases h' with
  | forBare ho' hi' hs' =>
    simp only [List.cons.injEq, true_and] at hw
    obtain ⟨rfl, rfl, rfl⟩ := forTail ho ho' hi hi' hbody hs' hw
    rfl
  | forInit h' =>
    simp only [List.cons.injEq, true_and] at hw
    obtain ⟨t, u, rfl, ht⟩ := h'.begins
    obtain ⟨rfl, -⟩ := List.cons.inj hw
    simp [Category.Begins, Token.beginsExpression] at ht
  | ofExprStmt h' => exact absurd (h'.begins_of_eq hw) (by simp [Category.Begins,
      Token.beginsExpression])
  | _ => simp at hw

theorem forInit {y z j : List Token} {init : Phrase} {o i : Option Expr} {body : Phrase}
    (hj : Sentence .forInit j init) (hinit : Sole .forInit j init)
    (ho : Optional (Expression .assignment) y o) (hi : Optional (Expression .assignment) z i)
    (hbody : Sole .statement w body) :
    Sole .statement
      (.symbol .forWord :: .symbol .openParen ::
        (j ++ (y ++ .symbol .semicolon :: (z ++ .symbol .closeParen :: w))))
      (.forLoop (some init) o i body) := by
  intro p' h'
  generalize hw : Token.symbol .forWord :: .symbol .openParen ::
    (j ++ (y ++ .symbol .semicolon :: (z ++ .symbol .closeParen :: w))) = w' at h'
  cases h' with
  | forBare =>
    simp only [List.cons.injEq, true_and] at hw
    obtain ⟨t, u, rfl, ht⟩ := hj.begins
    obtain ⟨rfl, -⟩ := List.cons.inj hw
    simp [Category.Begins, Token.beginsExpression] at ht
  | forInit h' ho' hi' hs' =>
    simp only [List.cons.injEq, true_and] at hw
    obtain ⟨rfl, hv⟩ := hj.split_init h' hw
    obtain ⟨rfl, rfl, rfl⟩ := forTail ho ho' hi hi' hbody hs' hv
    rw [hinit _ h']
  | ofExprStmt h' => exact absurd (h'.begins_of_eq hw) (by simp [Category.Begins,
      Token.beginsExpression])
  | _ => simp at hw

theorem initVar (hw : Sentence .varDecl w p) (h : Sole .varDecl w p) : Sole .forInit w p := by
  intro p' h'
  cases h' with
  | initVar h' => exact h p' h'
  | initExpr h' =>
    obtain ⟨t, u, rfl, rfl⟩ := hw.begins
    exact absurd (h'.begins_of_eq rfl) (by simp [Category.Begins, Token.beginsExpression])

theorem initExpr (hw : Sentence .exprStmt w p) (h : Sole .exprStmt w p) : Sole .forInit w p := by
  intro p' h'
  cases h' with
  | initVar h' =>
    obtain ⟨t, u, rfl, rfl⟩ := h'.begins
    exact absurd (hw.begins_of_eq rfl) (by simp [Category.Begins, Token.beginsExpression])
  | initExpr h' => exact h p' h'

/-! #### Declarations -/

theorem function (x : String) (params : List String) (body : List (List Token × Phrase))
    (hlen : params.length ≤ maxArguments) (hbody : ∀ d ∈ body, Sentence .declaration d.1 d.2)
    (hall : ∀ d ∈ body, Sole .declaration d.1 d.2) :
    Sole .function
      (.name x :: .symbol .openParen :: (commaSeparated (params.map fun x => [.name x]) ++
        .symbol .closeParen :: .symbol .openBrace ::
          ((body.map Prod.fst).flatten ++ [.symbol .closeBrace])))
      (.function (.mk x params (body.map Prod.snd))) := by
  intro p' h'
  have hstmt := (Sentence.split_function (v := []) (.function x params body hlen hbody) h' rfl).1
  generalize hw : Token.name x :: .symbol .openParen ::
    (commaSeparated (params.map fun x => [.name x]) ++ .symbol .closeParen :: .symbol .openBrace ::
      ((body.map Prod.fst).flatten ++ [.symbol .closeBrace])) = w' at h'
  cases h' with
  | function x' params' body' hlen' hbody' =>
    simp only [Phrase.stmt, FunctionPhrase.decl, Stmt.function.injEq, FunctionDecl.mk.injEq,
      true_and] at hstmt
    obtain ⟨hx, hparams, -⟩ := hstmt
    obtain rfl : x = x' := congrArg Declared.name hx
    obtain rfl : params = params' :=
      List.map_injective_iff.mpr (fun _ _ h => congrArg Declared.name h) hparams
    simp only [List.cons.injEq, List.append_cancel_left_eq, true_and] at hw
    obtain ⟨rfl, -⟩ := split_body hbody hbody' hall hw
    rfl

theorem classDecl (x : String) (parent : Option String)
    (methods : List (List Token × FunctionPhrase))
    (hmethods : ∀ m ∈ methods, Sentence .function m.1 (.function m.2))
    (hall : ∀ m ∈ methods, Sole .function m.1 (.function m.2)) :
    Sole .declaration
      (.symbol .classWord :: .name x :: (superclassTokens parent ++
        .symbol .openBrace :: ((methods.map Prod.fst).flatten ++ [.symbol .closeBrace])))
      (.classDecl x parent (methods.map Prod.snd)) := by
  intro p' h'
  have hstmt := (Sentence.split_declaration (v := []) (.classDecl x parent methods hmethods) h'
    (by simp [Phrase.endsOpen]) (fun _ => by simp [NoElse]) rfl).1
  generalize hw : Token.symbol .classWord :: .name x :: (superclassTokens parent ++
    .symbol .openBrace :: ((methods.map Prod.fst).flatten ++ [.symbol .closeBrace])) = w' at h'
  cases h' with
  | classDecl x' parent' methods' hmethods' =>
    simp only [Phrase.stmt, Stmt.classDecl.injEq, true_and] at hstmt
    obtain ⟨hx, hparent, -⟩ := hstmt
    obtain rfl : x = x' := congrArg Declared.name hx
    obtain rfl : parent = parent' :=
      Option.map_injective (fun _ _ h => congrArg NameUse.name h) hparent
    simp only [List.cons.injEq, List.append_cancel_left_eq, true_and] at hw
    obtain ⟨rfl, -⟩ := split_methods hmethods hmethods' hall hw
    rfl
  | funDecl => simp at hw
  | ofVarDecl h' => exact absurd (h'.begins_of_eq hw) (by simp [Category.Begins])
  | ofStatement h' => exact absurd (h'.begins_of_eq hw) (by simp [Category.Begins,
      Token.beginsStatement, Token.beginsExpression])

theorem funDecl (h : Sole .function w p) : Sole .declaration (.symbol .funWord :: w) p := by
  intro p' h'
  generalize hw : Token.symbol .funWord :: w = w' at h'
  cases h' with
  | classDecl => simp at hw
  | funDecl h' =>
    obtain ⟨-, rfl⟩ := List.cons.inj hw
    exact h p' h'
  | ofVarDecl h' => exact absurd (h'.begins_of_eq hw) (by simp [Category.Begins])
  | ofStatement h' => exact absurd (h'.begins_of_eq hw) (by simp [Category.Begins,
      Token.beginsStatement, Token.beginsExpression])

theorem ofVarDecl (hw : Sentence .varDecl w p) (h : Sole .varDecl w p) : Sole .declaration w p := by
  intro p' h'
  cases h' with
  | classDecl | funDecl => exact absurd (hw.begins_of_eq rfl) (by simp [Category.Begins])
  | ofVarDecl h' => exact h p' h'
  | ofStatement h' =>
    obtain ⟨t, u, rfl, rfl⟩ := hw.begins
    exact absurd (h'.begins_of_eq rfl) (by simp [Category.Begins, Token.beginsStatement,
      Token.beginsExpression])

theorem ofStatement (hw : Sentence .statement w p) (h : Sole .statement w p) :
    Sole .declaration w p := by
  intro p' h'
  cases h' with
  | classDecl | funDecl => exact absurd (hw.begins_of_eq rfl) (by simp [Category.Begins,
      Token.beginsStatement, Token.beginsExpression])
  | ofVarDecl h' =>
    obtain ⟨t, u, rfl, rfl⟩ := h'.begins
    exact absurd (hw.begins_of_eq rfl) (by simp [Category.Begins, Token.beginsStatement,
      Token.beginsExpression])
  | ofStatement h' => exact h p' h'

end Sole

/-- **A sentence is derived in one way.** -/
theorem Sentence.sole {k : Category} (h : Sentence k w p) : Sole k w p := by
  induction h with
  | classDecl x parent methods hm ih => exact .classDecl x parent methods hm ih
  | funDecl _ ih => exact ih.funDecl
  | ofVarDecl h ih => exact .ofVarDecl h ih
  | ofStatement h ih => exact .ofStatement h ih
  | function x params body hlen hbody ih => exact .function x params body hlen hbody ih
  | var x h => exact .var x h
  | ofExprStmt h ih => exact .ofExprStmt h ih
  | expression h => exact .expression h
  | print h => exact .print h
  | «return» h => exact .return h
  | block body hbody ih => exact .block body hbody ih
  | branch h hs ih => exact .branch h hs ih
  | branchElse h hs hopen _ ihy ihn => exact .branchElse h hs hopen ihy ihn
  | loop h _ ih => exact .loop h ih
  | forBare ho hi _ ih => exact .forBare ho hi ih
  | forInit h ho hi _ ihi ihb => exact .forInit h ihi ho hi ihb
  | initVar h ih => exact .initVar h ih
  | initExpr h ih => exact .initExpr h ih

/-- What follows a declaration of a program is no `else`. -/
theorem Program.noElse {ps : List Phrase} (h : Program w ps) : NoElse w := by
  cases h with
  | nil => simp [NoElse]
  | cons hp =>
    obtain ⟨t, u, rfl, ht⟩ := hp.begins
    exact ht.ne_else

/-- **A program is derived in one way.** -/
theorem Program.unique {ps qs : List Phrase} (h : Program w ps) (h' : Program w qs) : qs = ps := by
  induction h generalizing qs with
  | nil =>
    generalize hw : ([] : List Token) = w' at h'
    cases h' with
    | nil => rfl
    | cons hp =>
      obtain ⟨t, u, rfl, -⟩ := hp.begins
      cases hw
  | @cons u v p ps hp hps ih =>
    generalize hw : u ++ v = w' at h'
    cases h' with
    | nil =>
      obtain ⟨t, u, rfl, -⟩ := hp.begins
      cases hw
    | cons hp' hps' =>
      obtain ⟨-, rfl, rfl⟩ := hp.split_declaration hp' (fun _ => hps.noElse) (fun _ => hps'.noElse) hw
      rw [hp.sole _ hp', ih hps']

end Grammar
end ClassScript
