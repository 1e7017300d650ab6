/-
# Declarations under lexical scoping

The steps of a local declaration: first the name gets a cell (`declare_agrees`), then the
initializer or the superclass is evaluated, and then the name is bound and its cell gets
the value (`settle_agrees`). In between, the frame has a cell for the name and may not bind
it yet (`Pending`). For a global name only the last step does something.
-/
import ClassScript.Proofs.Lexical.Calls

namespace ClassScript
namespace Lexical

open Scope Scope.Analysis

variable {ps : List Program} {W W' : World} {φ : Nat} {ρ : Env} {c c' : Context} {m : Machine}
  {σ : State} {x : String} {cell : Option Nat}

/-- The same frames with another innermost scope that holds the same names. -/
theorem Linked.change {awaiting awaiting' : Option String} {scope scope' : NameTable Readiness}
    {scopes : List (NameTable Readiness)} {declares : List (List String)}
    (h : Linked W φ awaiting (scope :: scopes) declares ρ)
    (hcontains : ∀ y, scope'.contains y = scope.contains y)
    (hbound : ∀ y, scope'.find? y = some .defined → awaiting' ≠ some y →
      (scope.find? y = some .defined ∧ awaiting ≠ some y) ∨ W.bound φ y) :
    Linked W φ awaiting' (scope' :: scopes) declares ρ := by
  cases declares with
  | nil => exact h.instances.elim
  | cons names declares =>
    obtain ⟨⟨hi, hrest⟩, hnames⟩ := h
    refine ⟨⟨⟨hi.inside, hi.declares, fun y hy hne => ?_, fun y hy => hi.placed y (hcontains y ▸ hy)⟩,
      hrest⟩, fun y => ?_⟩
    · rcases hbound y hy hne with ⟨hdef, haw⟩ | hb
      · exact hi.bound y hdef haw
      · exact hb
    · rw [hnames y, placeOf, placeOf, hcontains y]

/-- Without a local scope there is no name that could be waited for. -/
theorem Linked.global {awaiting : Option String} {declares : List (List String)}
    (h : Linked W φ awaiting [] declares ρ) (awaiting' : Option String) :
    φ = globalFrame ∧ Linked W φ awaiting' [] declares ρ := by
  cases declares with
  | nil => exact ⟨h.instances, h.instances, h.names⟩
  | cons => exact h.instances.elim

/-- A name is declared, and its value is still to come. -/
structure Pending (W : World) (φ : Nat) (c : Context) (x : String) (cell : Option Nat) (ρ : Env) :
    Prop where
  linked : Linked W φ (some x) (settled c.scopes (some x)) c.declares ρ
  exact : Exact W φ (settled c.scopes (some x))
  global : cell = none → c.scopes = []
  place : ∀ i, cell = some i → W.place φ x = some i

namespace Pending

theorem lt_size (hm : Match ps W m σ) (h : Pending W φ c x cell ρ) : φ < W.size :=
  h.linked.instances.lt_size hm.store.nonempty

theorem mono (hm : Match ps W m σ) (hg : Grows φ [] W W') (h : Pending W φ c x cell ρ) :
    Pending W' φ c x cell ρ :=
  ⟨h.linked.mono hg.toExtends, h.exact.mono (h.lt_size hm) hg, h.global, fun i hi =>
    hg.kept φ (h.lt_size hm) x i (h.place i hi)⟩

/-- The environment of the initializer. -/
theorem initializer (h : Pending W φ c x cell ρ) :
    Linked W φ none (onInnermost (·.put x .declared) c.scopes) c.declares ρ := by
  have hl := h.linked
  cases hs : c.scopes with
  | nil =>
    rw [hs] at hl
    exact (hl.global none).2
  | cons scope rest =>
    rw [hs] at hl
    refine hl.change (fun y => ?_) (fun y hy _ => .inl ?_)
    · rw [NameTable.contains_put, NameTable.contains_put, NameTable.contains_put]
      cases decide (x = y) <;> rfl
    · have hxy : x ≠ y := by
        rintro rfl
        rw [NameTable.find?_put_self] at hy
        cases hy
      rw [NameTable.find?_put_of_ne _ _ hxy] at hy
      rw [find?_settled, if_neg hxy]
      exact ⟨hy, fun h => hxy (Option.some.inj h)⟩

/-- The environment behind the declaration, once the name is bound. -/
theorem bound (h : Pending W φ c x cell ρ) (hb : c.scopes ≠ [] → W.bound φ x) :
    Linked W φ none (settled c.scopes (some x)) c.declares ρ := by
  have hl := h.linked
  cases hs : c.scopes with
  | nil =>
    rw [hs] at hl
    exact (hl.global none).2
  | cons scope rest =>
    rw [hs] at hl
    refine hl.change (fun _ => rfl) (fun y hy _ => ?_)
    by_cases hxy : x = y
    · exact .inr (hxy ▸ hb (by simp [hs]))
    · exact .inl ⟨hy, fun h => hxy (Option.some.inj h)⟩

end Pending

/-- One name more in the innermost scope, with a cell of its own. -/
theorem Linked.declare {scope : NameTable Readiness} {scopes : List (NameTable Readiness)}
    {declares : List (List String)} (hl : Linked W φ none (scope :: scopes) declares ρ)
    (hx : W.place φ x = none) (i : Nat) :
    Linked (W.declare φ x i) φ (some x) ((scope.put x .declared).put x .defined :: scopes) declares
      (ρ.put x i) := by
  have hext := (declare_grows i hx).toExtends
  have hother := (hl.mono hext).names
  cases declares with
  | nil => exact hl.instances.elim
  | cons names declares =>
    obtain ⟨⟨hi, outer, hlt, hparent, hrest⟩, -⟩ := hl
    have hcontains : ∀ y, ((scope.put x .declared).put x .defined).contains y =
        (decide (x = y) || scope.contains y) := by
      intro y
      rw [NameTable.contains_put, NameTable.contains_put]
      cases decide (x = y) <;> rfl
    have hplace : (W.declare φ x i).place φ x = some i := if_pos ⟨rfl, rfl⟩
    refine ⟨⟨⟨hi.inside, hi.declares, fun y hy hne => ?_, fun y hy => ?_⟩, outer, hlt, hparent,
      hrest.mono hext⟩, fun y => ?_⟩
    · have hxy : x ≠ y := fun h => hne (congrArg some h)
      rw [find?_settled, if_neg hxy] at hy
      exact hi.bound y hy (by simp)
    · rw [hcontains] at hy
      by_cases hxy : x = y
      · rw [← hxy, hplace]
        rfl
      · obtain ⟨j, hj⟩ := Option.isSome_iff_exists.mp (hi.placed y (by simpa [hxy] using hy))
        rw [hext.kept φ hi.inside y j hj]
        rfl
    · rw [NameTable.find?_put]
      by_cases hxy : x = y
      · rw [if_pos hxy, placeOf, hcontains, ← hxy, hplace]
        simp
      · rw [if_neg hxy, hother y, placeOf, placeOf, hcontains]
        simp [hxy]

/-- **A declaration gives its name a cell,** if the name is a local one. -/
theorem declare_agrees (hm : Match ps W m σ) {s : Stmt} (ha : At W m.frame ρ c (.stmt s))
    (hexact : Exact W m.frame c.scopes) (hx : s.declares = some x) :
    ∃ W₁ cell σ₁, Run.declare (!c.scopes.isEmpty) σ = .done cell σ₁ ∧ Grows m.frame [x] W W₁ ∧
      Match ps W₁ m σ₁ ∧ Pending W₁ m.frame c x cell (Run.extended ρ x cell) := by
  obtain ⟨Δ, hacc, -⟩ := ha.accepted hm
  have hnew := hacc.declares_new hx
  have hnames := hacc.fits.2.2
  have hl := ha.linked
  rw [hacc.fits.1] at hl
  cases hs : c.scopes with
  | nil =>
    rw [hs] at hl
    refine ⟨W, none, σ, rfl, .refl _ _ _, hm, ⟨?_, ?_, fun _ => hs, by simp⟩⟩
    · rw [hs]
      exact (hl.global _).2
    · rw [hs]
      exact fun _ h => by cases h
  | cons scope rest =>
    rw [hs] at hl hexact hnew
    have hnone : W.place m.frame x = none := hexact scope rfl x (by simp [hnew scope rfl])
    obtain ⟨hdecl, hinner, hlt⟩ : x ∈ W.declares m.frame ∧ m.frame ≠ globalFrame ∧
        m.frame < W.size := by
      cases hd : c.declares with
      | nil => exact (hd ▸ hl).instances.elim
      | cons names declares =>
        obtain ⟨hi, outer, hlt, -⟩ := (hd ▸ hl).instances
        rw [hi.declares]
        refine ⟨hnames names (by simp [hd]) x hx, fun h => ?_, hi.inside⟩
        rw [h] at hlt
        exact Nat.not_lt_zero outer hlt
    have hg := declare_grows σ.cells.size hnone
    refine ⟨_, some σ.cells.size, _, rfl, hg, ?_, ⟨?_, ?_, by simp, ?_⟩⟩
    · exact hm.withStore rfl (hm.store.declare hlt hinner hnone hdecl) rfl rfl rfl rfl rfl
    · rw [hs]
      exact hl.declare hnone _
    · rw [hs]
      rintro _ ⟨rfl⟩ y hy
      rw [NameTable.contains_put, NameTable.contains_put] at hy
      have hxy : x ≠ y := by
        rintro rfl
        simp at hy
      rw [hg.place m.frame hlt y (by simp [Ne.symm hxy])]
      exact hexact scope rfl y (by simpa [hxy] using hy)
    · rintro i ⟨rfl⟩
      exact if_pos ⟨rfl, rfl⟩

/-- **A declared name gets its value.** What is alike may depend on the name being bound. -/
theorem settle_agrees (hm : Match ps W m σ) (hframe : m.frame = φ) (hd : Pending W φ c x cell ρ)
    (hx : ProperName x) {v : Value} {v' : Value Env}
    (hv : ∀ W', Grows φ [] W W' →
      Linked W' φ none (settled c.scopes (some x)) c.declares ρ → Alike W' v v') :
    Agree ps W φ []
      (fun W' _ _ => Linked W' φ none (settled c.scopes (some x)) c.declares ρ ∧
        Exact W' φ (settled c.scopes (some x)))
      (ClassScript.Run.define x v m) (Run.settle x cell v' σ) := by
  subst hframe
  cases hcell : cell with
  | none =>
    have hs := hd.global hcell
    have hlinked := hd.bound fun h => absurd hs h
    have hframe : m.frame = globalFrame := ((hs ▸ hlinked : Linked W _ none [] _ ρ).global none).1
    have hstore := hm.store.global x (hv W (.refl _ _ _) hlinked)
    rw [← hframe] at hstore
    exact .done (.refl _ _ _) (hm.withStore rfl hstore rfl rfl rfl rfl rfl) rfl ⟨hlinked, hd.exact⟩
  | some i =>
    have hg := bind_grows W m.frame x m.frame []
    have hd' := hd.mono hm hg
    have hlinked := hd'.bound fun _ => .inl ⟨rfl, rfl⟩
    have hs := hm.store.settle (hd.place i hcell) (hv _ hg hlinked) (fun h => absurd h hx.1)
      (fun h => absurd h hx.2)
    exact .done hg (hm.withStore rfl hs rfl rfl rfl rfl rfl) rfl ⟨hlinked, hd'.exact⟩

/-! ### Classes -/

/-- The analysis comes to each method of a class, in the scopes of all of them. -/
theorem method_visited {body : List Stmt} : ∀ {ds : List FunctionDecl} {k : Context},
    Visits body k (.methods ds) → ∀ d ∈ ds,
    ∃ k', Visits body k' (.function d) ∧ k'.scopes = k.scopes ∧ k'.declares = k.declares
  | [], _, _, _, hd => by cases hd
  | d :: ds, k, hv, d', hd => by
    rcases List.mem_cons.mp hd with rfl | hd
    · exact ⟨_, hv.child (.head _), rfl, rfl⟩
    · obtain ⟨k', hv', hs, hdecl⟩ := method_visited (hv.child (.tail _ (.head _))) d' hd
      exact ⟨k', hv', hs.trans (function_scopes _ _ _ d), hdecl⟩

/-- **Methods are declared alike.** -/
theorem methods_agrees (ψ : Nat) (ρ : Env) : ∀ (ds : List FunctionDecl) (table : NameTable Closure)
    (table' : NameTable (Closure Env)) {m : Machine} {σ : State}, Match ps W m σ →
    ∃ t t' m' σ', ClassScript.Run.methods ψ ds table m = .done t m' ∧
      Run.methods ρ ds table' σ = .done t' σ' ∧ Match ps W m' σ' ∧ m'.frame = m.frame ∧
      ∀ R : Closure → Closure Env → Prop, TablesAlike R table table' →
        (∀ d ∈ ds, ∀ i, R ⟨i, d, ψ, d.name == initName⟩ ⟨i, d, ρ, d.name == initName⟩) →
        TablesAlike R t t'
  | [], table, table', m, σ, hm => ⟨table, table', m, σ, rfl, rfl, hm, rfl, fun _ ht _ => ht⟩
  | d :: ds, table, table', m, σ, hm => by
    have hm₁ : Match ps W { m with store := m.store.newIdent.2 }
        { σ with idents := σ.idents + 1 } :=
      hm.withStore rfl hm.store.ident rfl rfl rfl rfl rfl
    obtain ⟨t, t', m', σ', hrun, hrun', hm', hframe, hrel⟩ := methods_agrees ψ ρ ds
      (table.put d.name ⟨m.store.idents, d, ψ, d.name == initName⟩)
      (table'.put d.name ⟨σ.idents, d, ρ, d.name == initName⟩) hm₁
    refine ⟨t, t', m', σ', hrun, hrun', hm', hframe, fun R ht hR => hrel R ?_ ?_⟩
    · rw [hm.store.idents]
      exact ht.put d.name (hR d List.mem_cons_self _)
    · exact fun d' hd' i => hR d' (List.mem_cons_of_mem d hd') i

/-- A class gets its value, once it is settled what its methods see. -/
theorem settleMethods_agrees (hm : Match ps W m σ) (hd : Pending W m.frame c x cell ρ)
    (hx : ProperName x) {p : Program} (hp : p ∈ W.texts) {k : Context} {ds : List FunctionDecl}
    (hv : Visits p.body k (.methods ds)) {scopes : List (NameTable Readiness)}
    {declares : List (List String)} (hscopes : k.scopes = thisScope :: scopes)
    (hdeclares : k.declares = [thisName] :: declares) {ψ : Nat} {ρ' : Env}
    (hl : ∀ W', Grows m.frame [] W W' →
      Linked W' m.frame none (settled c.scopes (some x)) c.declares ρ →
      Linked W' ψ none scopes declares ρ')
    {inherited : List ClassBody} {inherited' : List (ClassBody Env)}
    (hi : ∀ W', Extends W W' → List.Forall₂ (BodiesAlike W') inherited inherited') :
    Agree ps W m.frame []
      (fun W' _ _ => Linked W' m.frame none (settled c.scopes (some x)) c.declares ρ ∧
        Exact W' m.frame (settled c.scopes (some x)))
      ((do
        let table ← ClassScript.Run.methods ψ ds .empty
        let ident ← ClassScript.Run.newIdent
        ClassScript.Run.define x (.cls ⟨⟨ident, x, table⟩, inherited⟩)) m)
      ((do
        let table ← Run.methods ρ' ds .empty
        let ident ← Run.newIdent
        Run.settle x cell (.cls ⟨⟨ident, x, table⟩, inherited'⟩)) σ) := by
  obtain ⟨t, t', m₁, σ₁, hrun, hrun', hm₁, hframe, hrel⟩ := methods_agrees ψ ρ' ds .empty .empty hm
  have hident : ClassScript.Run.newIdent m₁ =
      .done m₁.store.idents { m₁ with store := m₁.store.newIdent.2 } := rfl
  have hident' : Run.newIdent σ₁ = .done σ₁.idents { σ₁ with idents := σ₁.idents + 1 } := rfl
  have hm₂ : Match ps W { m₁ with store := m₁.store.newIdent.2 }
      { σ₁ with idents := σ₁.idents + 1 } :=
    hm₁.withStore rfl hm₁.store.ident rfl rfl rfl rfl rfl
  rw [machine_bind_done hrun, machine_bind_done hident, Run.bind_done hrun', Run.bind_done hident']
  have hvalue : ∀ W', Grows m.frame [] W W' →
      Linked W' m.frame none (settled c.scopes (some x)) c.declares ρ →
      Alike W' (.cls ⟨⟨m₁.store.idents, x, t⟩, inherited⟩)
        (.cls ⟨⟨σ₁.idents, x, t'⟩, inherited'⟩) := by
    intro W' hg hlinked
    refine .cls (.cons ⟨hm₁.store.idents, rfl, ?_⟩ (hi W' hg.toExtends))
    refine hrel _ (tablesAlike_empty _) fun d hmem i => ?_
    obtain ⟨k', hv', hs, hdecl⟩ := method_visited hv d hmem
    exact ⟨rfl, rfl, rfl, p, hg.texts p hp, k', scopes, declares, hv',
      ⟨hs.trans hscopes, hdecl.trans hdeclares⟩, hl W' hg hlinked⟩
  exact settle_agrees hm₂ hframe hd hx hvalue

/-- A class without a superclass is declared alike. -/
theorem settleBase_agrees (hm : Match ps W m σ) (hd : Pending W m.frame c x cell ρ)
    (hx : ProperName x) {p : Program} (hp : p ∈ W.texts) {k : Context} {ds : List FunctionDecl}
    (hv : Visits p.body k (.methods ds))
    (hscopes : k.scopes = thisScope :: settled c.scopes (some x))
    (hdeclares : k.declares = [thisName] :: c.declares) :
    Agree ps W m.frame []
      (fun W' _ _ => Linked W' m.frame none (settled c.scopes (some x)) c.declares ρ ∧
        Exact W' m.frame (settled c.scopes (some x)))
      (ClassScript.Run.declareClass x none ds m) (Run.settleClass ρ x cell none ds σ) :=
  settleMethods_agrees hm hd hx hp hv hscopes hdeclares (fun _ _ hl => hl) (fun _ _ => .nil)

/-- A class with a superclass is declared alike: the methods see that, in a frame and with a cell
of its own. -/
theorem settleDerived_agrees (hm : Match ps W m σ) (hd : Pending W m.frame c x cell ρ)
    (hx : ProperName x) {p : Program} (hp : p ∈ W.texts) {k : Context} {ds : List FunctionDecl}
    (hv : Visits p.body k (.methods ds))
    (hscopes : k.scopes = thisScope :: superScope :: settled c.scopes (some x))
    (hdeclares : k.declares = [thisName] :: [superName] :: c.declares) {q : Class} {q' : Class Env}
    (hq : ClassesAlike W q q') :
    Agree ps W m.frame []
      (fun W' _ _ => Linked W' m.frame none (settled c.scopes (some x)) c.declares ρ ∧
        Exact W' m.frame (settled c.scopes (some x)))
      (ClassScript.Run.declareClass x (some q) ds m) (Run.settleClass ρ x cell (some q') ds σ) := by
  have he : EntriesAlike W [(superName, .cls q)] [(superName, .cls q')] := .cons ⟨rfl, .cls hq⟩ .nil
  obtain ⟨W₁, ρ', σ₁, hrun, hg, hm₁, ho, -⟩ := hm.enter he ρ [superName] (hd.lt_size hm)
    (fun y => contains_single superName y .defined (Value.cls q)) (by simp) (by simp; decide)
    (by simp)
  have hnew : ClassScript.Run.newFrame m.frame (NameTable.empty.put superName (.cls q)) m =
      .done W.size { m with store := (m.store.newFrame (some m.frame)
        (.ofList [(superName, .cls q)])).2 } := by
    rw [← hm.store.size]
    rfl
  have hagree := settleMethods_agrees hm₁ (hd.mono hm (hg _ _)) hx ((hg 0 []).texts p hp) hv hscopes
    hdeclares (fun W' hg' hl => hl.open_scope (ho.mono hg'.toExtends))
    (fun W' hext => hq.mono ((hg 0 []).toExtends.trans hext))
  refine Agree.before (hg _ _) ?_
  unfold ClassScript.Run.declareClass Run.settleClass
  rw [machine_bind_done (rfl : ClassScript.Run.currentFrame m = .done m.frame m)]
  dsimp only
  rw [machine_bind_done hnew, Run.bind_done hrun]
  exact hagree

end Lexical
end ClassScript
