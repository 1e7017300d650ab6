/-
# Runs of a program and its variant

The answers of two runs correspond (`Answers`) if the runs end in the same way, errors
included, up to what the variation does to spans; afterwards the machines are alike again
(`Machines`), and the current frame is the one it was. That goes through all that runs
are made of, up to one level of the recursion (`exprStep_akin`, `callStep_akin`,
`stmtStep_akin`).

Key theorem: `runs_akin`. With the same fuel, a program and its variant do the same.
-/
import ClassScript.Proofs.Machine.Below
import ClassScript.Proofs.Variant.Values

namespace ClassScript
namespace Variant

open Scope Variation
open Lexical (TablesAlike optionRel_mono)

/-- Machines that run a program and its variant. -/
structure Machines (v : Variation) (W : Frames) (m m' : Machine) : Prop where
  store : StoresAkin v W m.store m'.store
  frame : m'.frame = m.frame
  depths : ∀ id, v.known id → m.depths.find? id = v.depths.find? id ∧
    m'.depths.find? id = v.depths.find? id
  sink : m'.sink = m.sink
  calls : m'.calls = m.calls
  maxCalls : m'.maxCalls = m.maxCalls
  clock : m'.clock = m.clock
  readings : m'.readings = m.readings

/-- The same error, at a place that the variation has made of its place. -/
structure Errors (v : Variation) (e e' : RuntimeError) : Prop where
  fault : e'.fault = e.fault
  span : Option.Rel (fun s s' => ∃ o, v.spans o s s') e.span e'.span

variable {α β γ δ : Type} {v : Variation} {W W' : Frames} {φ : Nat} {M : List Bool} {o : Origin}

/-- The answers of two runs that started with the frames `W`, of which `φ` was the current one. -/
inductive Answers (v : Variation) (W : Frames) (φ : Nat) (A : Frames → α → β → Prop) :
    Answer α → Answer β → Prop
  | done {W' : Frames} {a : α} {b : β} {m m' : Machine} (ext : Extends W W')
    (hm : Machines v W' m m') (frame : m.frame = φ) (h : A W' a b) :
    Answers v W φ A (.done a m) (.done b m')
  | failed {W' : Frames} {e e' : RuntimeError} {m m' : Machine} (ext : Extends W W')
    (hm : Machines v W' m m') (frame : m.frame = φ) (h : Errors v e e') :
    Answers v W φ A (.failed e m) (.failed e' m')
  | broken (b b' : Breach) : Answers v W φ A (.broken b) (.broken b')
  | exhausted : Answers v W φ A .exhausted .exhausted

/-- Values that a program and its variant have. -/
def Values (v : Variation) (W : Frames) : Value → Value → Prop := Akin (Code v W)

theorem Values.mono (hext : Extends W W') {x x' : Value} (h : Values v W x x') : Values v W' x x' :=
  Akin.mono hext h

namespace Machines

variable {m m' : Machine}

theorem withStore (h : Machines v W m m') {s s' : Store} (hs : StoresAkin v W' s s') :
    Machines v W' { m with store := s } { m' with store := s' } :=
  ⟨hs, h.frame, h.depths, h.sink, h.calls, h.maxCalls, h.clock, h.readings⟩

theorem withFrame (h : Machines v W m m') (φ : Nat) :
    Machines v W { m with frame := φ } { m' with frame := φ } :=
  ⟨h.store, rfl, h.depths, h.sink, h.calls, h.maxCalls, h.clock, h.readings⟩

theorem withCalls (h : Machines v W m m') {n n' : Nat} (hn : n' = n) :
    Machines v W { m with calls := n } { m' with calls := n' } :=
  ⟨h.store, h.frame, h.depths, h.sink, hn, h.maxCalls, h.clock, h.readings⟩

theorem withSink (h : Machines v W m m') (sink : Sink) :
    Machines v W { m with sink := sink } { m' with sink := sink } :=
  ⟨h.store, h.frame, h.depths, rfl, h.calls, h.maxCalls, h.clock, h.readings⟩

end Machines

theorem Errors.refl (v : Variation) (fault : Fault) : Errors v ⟨fault, none⟩ ⟨fault, none⟩ :=
  ⟨rfl, .none⟩

theorem Errors.locate {e e' : RuntimeError} {s s' : Span} (h : Errors v e e') (hs : v.spans o s s') :
    Errors v (e.locate s) (e'.locate s') := by
  obtain ⟨fault, span⟩ := e
  obtain ⟨fault', span'⟩ := e'
  refine ⟨h.fault, ?_⟩
  cases h.span with
  | none => exact .some ⟨o, hs⟩
  | some hspan => exact .some hspan

namespace Answers

variable {A : Frames → α → β → Prop} {B : Frames → γ → δ → Prop} {x : Answer α} {y : Answer β}
  {m m' : Machine}

/-- A correspondence from later frames on. -/
theorem before (hext : Extends W W') (h : Answers v W' φ A x y) : Answers v W φ A x y := by
  cases h with
  | done ext hm frame ha => exact .done (hext.trans ext) hm frame ha
  | failed ext hm frame he => exact .failed (hext.trans ext) hm frame he
  | broken b b' => exact .broken b b'
  | exhausted => exact .exhausted

theorem pure {a : α} {b : β} (hm : Machines v W m m') (hab : A W a b) :
    Answers v W m.frame A ((Pure.pure a : Run α) m) ((Pure.pure b : Run β) m') :=
  .done (.refl W) hm rfl hab

theorem fail (hm : Machines v W m m') (fault : Fault) :
    Answers v W m.frame A (Run.fail fault m) (Run.fail fault m') :=
  .failed (.refl W) hm rfl (.refl v fault)

/-- **One run after the other.** -/
theorem bind {r : Run α} {r' : Run β} {f : α → Run γ} {f' : β → Run δ}
    (h : Answers v W φ A (r m) (r' m'))
    (hf : ∀ W₁ a b m₁ m₁', Extends W W₁ → Machines v W₁ m₁ m₁' → m₁.frame = φ → A W₁ a b →
      Answers v W₁ φ B (f a m₁) (f' b m₁')) :
    Answers v W φ B ((r >>= f) m) ((r' >>= f') m') := by
  show Answers v W φ B (Run.bind r f m) (Run.bind r' f' m')
  unfold Run.bind
  generalize r m = x at h
  generalize r' m' = y at h
  cases h with
  | done ext hm frame hab => exact (hf _ _ _ _ _ ext hm frame hab).before ext
  | failed ext hm frame he => exact .failed ext hm frame he
  | broken b b' => exact .broken b b'
  | exhausted => exact .exhausted

theorem located {r : Run α} {r' : Run β} {s s' : Span} (hs : v.spans o s s')
    (h : Answers v W φ A (r m) (r' m')) :
    Answers v W φ A (r.located s m) (r'.located s' m') := by
  unfold Run.located
  generalize r m = x at h
  generalize r' m' = y at h
  cases h with
  | done ext hm frame hab => exact .done ext hm frame hab
  | failed ext hm frame he => exact .failed ext hm frame (he.locate hs)
  | broken b b' => exact .broken b b'
  | exhausted => exact .exhausted

theorem inFrame {r : Run α} {r' : Run β} {ψ : Nat} (hm : Machines v W m m')
    (h : Answers v W ψ A (r { m with frame := ψ }) (r' { m' with frame := ψ })) :
    Answers v W m.frame A (r.inFrame ψ m) (r'.inFrame ψ m') := by
  unfold Run.inFrame
  dsimp only
  rw [hm.frame]
  generalize r { m with frame := ψ } = x at h
  generalize r' { m' with frame := ψ } = y at h
  cases h with
  | done ext hm frame hab => exact .done ext (hm.withFrame _) rfl hab
  | failed ext hm frame he => exact .failed ext (hm.withFrame _) rfl he
  | broken b b' => exact .broken b b'
  | exhausted => exact .exhausted

theorem asCall {r : Run α} {r' : Run β} (hm : Machines v W m m')
    (h : Machines v W { m with calls := m.calls + 1 } { m' with calls := m'.calls + 1 } →
      Answers v W m.frame A (r { m with calls := m.calls + 1 })
        (r' { m' with calls := m'.calls + 1 })) :
    Answers v W m.frame A (r.asCall m) (r'.asCall m') := by
  have hdeep : m'.maxCalls ≤ m'.calls ↔ m.maxCalls ≤ m.calls := by rw [hm.maxCalls, hm.calls]
  unfold Run.asCall
  by_cases hmax : m.maxCalls ≤ m.calls
  · rw [if_pos hmax, if_pos (hdeep.mpr hmax)]
    exact .failed (.refl W) hm rfl (.refl v _)
  · rw [if_neg hmax, if_neg fun hh => hmax (hdeep.mp hh)]
    have h := h (hm.withCalls (congrArg (· + 1) hm.calls))
    generalize r { m with calls := m.calls + 1 } = x at h
    generalize r' { m' with calls := m'.calls + 1 } = y at h
    cases h with
    | done ext hm frame hab => exact .done ext (hm.withCalls (congrArg (· - 1) hm.calls)) frame hab
    | failed ext hm frame he => exact .failed ext (hm.withCalls (congrArg (· - 1) hm.calls)) frame he
    | broken b b' => exact .broken b b'
    | exhausted => exact .exhausted

end Answers

/-! ### Names -/

variable {m m' : Machine} {mk mk' : Mark} {z z' : String}

/-- Both sides look for a name at a depth in the same frame, and under a name that is its own
there, or beyond the global frame both. -/
theorem StoresAkin.at_depth {s s' : Store} (h : StoresAkin v W s s') (hstands : Stands W M φ)
    {φ' : Nat} (hφ : φ' = φ) (d : Nat) :
    (s.ancestor d φ = none ∧ s'.ancestor d φ' = none) ∨
      ∃ ψ < W.size, s.ancestor d φ = some ψ ∧ s'.ancestor d φ' = some ψ ∧
        W.marked ψ = target M (some d) := by
  rw [hφ, h.ancestor d hstands]
  cases hψ : s.ancestor d φ with
  | none => exact .inl ⟨rfl, rfl⟩
  | some ψ =>
    obtain ⟨hlt, hmark⟩ := hstands.ancestor h.parent hψ
    exact .inr ⟨ψ, hlt, rfl, rfl, hmark⟩

/-- Outcomes of look-ups at a depth. -/
inductive FoundAkin (v : Variation) (W : Frames) : Except Breach Value → Except Breach Value → Prop
  | ok {x x' : Value} (h : Values v W x x') : FoundAkin v W (.ok x) (.ok x')
  | error (b b' : Breach) : FoundAkin v W (.error b) (.error b')

theorem getAt_akin {s s' : Store} (h : StoresAkin v W s s') (hstands : Stands W M φ) {φ' : Nat}
    (hφ : φ' = φ) (d : Nat) (hz : z' = v.rename (target M (some d)) z)
    (hfree : target M (some d) = true → v.Free z) :
    FoundAkin v W (s.getAt φ d z) (s'.getAt φ' d z') := by
  unfold Store.getAt
  rcases h.at_depth hstands hφ d with ⟨hψ, hψ'⟩ | ⟨ψ, hlt, hψ, hψ', hmark⟩
  · rw [hψ, hψ']
    exact .error _ _
  · have hfound := h.names ψ hlt z fun hm => hfree (hmark ▸ hm)
    rw [hψ, hψ', hz, ← hmark]
    dsimp only
    generalize s.lookup ψ z = x at hfound
    generalize s'.lookup ψ _ = x' at hfound
    cases hfound with
    | none => exact .error _ _
    | some hx => exact .ok hx

/-- Names that are not those of variables are the same on both sides. -/
theorem getAt_keyword {s s' : Store} (h : StoresAkin v W s s') (hstands : Stands W M φ) {φ' : Nat}
    (hφ : φ' = φ) (d : Nat) (hz : ¬ ProperName z) :
    FoundAkin v W (s.getAt φ d z) (s'.getAt φ' d z) :=
  getAt_akin h hstands hφ d (rename_keyword hz _).1.symm fun _ => (rename_keyword hz false).2

/-- **A name is read on both sides.** -/
theorem readName_akin (hm : Machines v W m m') (hstands : Stands W M m.frame)
    (h : v.Refers o M mk mk' z z') :
    Answers v W m.frame (Values v) (Run.readName mk.id z m) (Run.readName mk'.id z' m') := by
  obtain ⟨hd, hd'⟩ := hm.depths mk.id h.known
  have hname := h.name
  unfold Run.readName
  rw [h.id, hd, hd']
  cases hdepth : v.depths.find? mk.id with
  | some d =>
    rw [hdepth] at hname
    have hfound := getAt_akin hm.store hstands hm.frame d hname.eq fun hmark => hname.free (.inr hmark)
    dsimp only
    generalize m.store.getAt m.frame d z = x at hfound
    generalize m'.store.getAt m'.frame d z' = x' at hfound
    cases hfound with
    | ok hx => exact .done (.refl W) hm rfl hx
    | error b b' => exact .broken b b'
  | none =>
    rw [hdepth] at hname
    obtain rfl : z' = z := hname.eq.trans (rename_unmarked v z)
    have hfound := hm.store.lookup_global z'
    simp only [Store.get_global]
    generalize m.store.lookup globalFrame z' = x at hfound
    generalize m'.store.lookup globalFrame z' = x' at hfound
    cases hfound with
    | none => exact .fail hm _
    | some hx => exact .done (.refl W) hm rfl hx

/-- **A name is written on both sides.** -/
theorem writeName_akin (hm : Machines v W m m') (hstands : Stands W M m.frame)
    (h : v.Refers o M mk mk' z z') {x x' : Value} (hx : Values v W x x') :
    Answers v W m.frame (fun _ _ _ => True) (Run.writeName mk.id z x m)
      (Run.writeName mk'.id z' x' m') := by
  obtain ⟨hd, hd'⟩ := hm.depths mk.id h.known
  have hname := h.name
  unfold Run.writeName
  rw [h.id, hd, hd']
  cases hdepth : v.depths.find? mk.id with
  | some d =>
    rw [hdepth] at hname
    dsimp only
    unfold Store.assignAt
    rcases hm.store.at_depth hstands hm.frame d with ⟨hψ, hψ'⟩ | ⟨ψ, hlt, hψ, hψ', hmark⟩
    · rw [hψ, hψ']
      exact .broken _ _
    · rw [hψ, hψ']
      have hs := hm.store.define hlt (hmark ▸ hname.eq)
        (fun hmk => hname.free (.inr (hmark ▸ hmk))) hx
      exact .done (.refl W) (hm.withStore hs) rfl trivial
  | none =>
    rw [hdepth] at hname
    obtain rfl : z' = z := hname.eq.trans (rename_unmarked v z)
    have hfound := hm.store.lookup_global z'
    simp only [Store.assign_global]
    have hs := hm.store.define (z := z') hm.store.global
      (by rw [hm.store.unmarked, rename_unmarked]) (by rw [hm.store.unmarked]; simp) hx
    generalize m.store.lookup globalFrame z' = y at hfound
    generalize m'.store.lookup globalFrame z' = y' at hfound
    cases hfound with
    | none => exact .fail hm _
    | some _ => exact .done (.refl W) (hm.withStore hs) rfl trivial

/-- A name is bound in the current frame on both sides. -/
theorem define_akin (hm : Machines v W m m') (hstands : Stands W M m.frame)
    (h : v.Named o (M.headD false) z z') {x x' : Value} (hx : Values v W x x') :
    Answers v W m.frame (fun _ _ _ => True) (Run.define z x m) (Run.define z' x' m') := by
  have hs : StoresAkin v W (m.store.define m.frame z x) (m'.store.define m'.frame z' x') := by
    rw [hm.frame]
    exact hm.store.define hstands.inside (hstands.marked ▸ h.eq)
      (fun hmark => h.free (.inr (hstands.marked ▸ hmark))) hx
  exact .done (.refl W) (hm.withStore hs) rfl trivial

/-! ### Properties, output and functions of the language -/

theorem ofExcept_akin (hm : Machines v W m m') {r r' : Except Fault Value}
    (h : OutcomesAkin (Code v W) r r') :
    Answers v W m.frame (Values v) (Run.ofExcept r m) (Run.ofExcept r' m') := by
  cases h with
  | ok hx => exact .pure hm hx
  | error fault => exact .fail hm fault

theorem printLine_akin (hm : Machines v W m m') (text : String) :
    Answers v W m.frame (fun _ _ _ => True) (Run.printLine text m) (Run.printLine text m') := by
  unfold Run.printLine
  rw [hm.sink]
  obtain ⟨reason, sink⟩ := m.sink.write (text ++ "\n")
  cases reason with
  | none => exact .done (.refl W) (hm.withSink sink) rfl trivial
  | some reason => exact .failed (.refl W) (hm.withSink sink) rfl (.refl v _)

theorem readClock_akin (hm : Machines v W m m') :
    Answers v W m.frame (fun _ a b => b = a) (Run.readClock m) (Run.readClock m') :=
  .done (.refl W) ⟨hm.store, hm.frame, hm.depths, hm.sink, hm.calls, hm.maxCalls, hm.clock,
    congrArg (· + 1) hm.readings⟩ rfl (by rw [hm.clock, hm.readings])

theorem native_akin (hm : Machines v W m m') (n : Native) {xs xs' : List Value}
    (hxs : List.Forall₂ (Values v W) xs xs') :
    Answers v W m.frame (Values v) (Run.native n xs m) (Run.native n xs' m') := by
  cases n with
  | clock =>
    refine (readClock_akin hm).bind fun W₁ a b m₁ m₁' _ hm₁ hf₁ hab => ?_
    rw [← hf₁, hab]
    exact .pure hm₁ (.number a)
  | str | type | num =>
    cases hxs with
    | nil => exact .broken _ _
    | cons hx _ =>
      first
      | exact ofExcept_akin hm hx.toNumber
      | (refine .pure hm ?_; rw [Akin.display (Code.outward v W) hx]; exact .text _)
      | (refine .pure hm ?_; rw [Akin.kind hx]; exact .text _)

/-- A method is bound to an object on both sides. -/
theorem bind_akin (hm : Machines v W m m') {c c' : Closure}
    (hc : ClosuresAkin (Code v W) true c c') {x x' : Value} (hx : Values v W x x') :
    Answers v W m.frame (fun W₁ b b' => ClosuresAkin (Code v W₁) false b b')
      (Run.onStore (fun s => s.bind c x) m) (Run.onStore (fun s => s.bind c' x') m') := by
  obtain ⟨W₁, hext, hs, hb⟩ := hm.store.bind hc hx
  exact .done hext (hm.withStore hs) rfl hb

theorem readProperty_akin (hm : Machines v W m m') {x x' : Value} (hx : Values v W x x')
    (z : String) :
    Answers v W m.frame (Values v) (Run.readProperty x z m) (Run.readProperty x' z m') := by
  cases hx with
  | nil | bool | number | text | native | function | cls =>
    exact .failed (.refl W) hm rfl (.refl v _)
  | object i hc =>
    rename_i c c'
    have hfield := hm.store.fields i z
    have hmethod := hc.method? z
    simp only [Run.readProperty, Store.property]
    generalize m.store.field? i z = y at hfield
    generalize m'.store.field? i z = y' at hfield
    cases hfield with
    | some hy => exact .done (.refl W) hm rfl hy
    | none =>
      generalize c.method? z = y at hmethod
      generalize c'.method? z = y' at hmethod
      cases hmethod with
      | none => exact .failed (.refl W) hm rfl (.refl v _)
      | some hmth =>
        obtain ⟨W₁, hext, hs, hb⟩ := hm.store.bind hmth (.object i hc)
        exact .done hext (hm.withStore hs) rfl (.function hb)

/-- **A method of the superclass is found and bound on both sides.** -/
theorem readSuper_akin (hm : Machines v W m m') (hstands : Stands W M m.frame)
    (hid : mk'.id = mk.id) (hknown : v.known mk.id) (z : String) :
    Answers v W m.frame (Values v) (Run.readSuper mk.id z m) (Run.readSuper mk'.id z m') := by
  obtain ⟨hd, hd'⟩ := hm.depths mk.id hknown
  unfold Run.readSuper
  rw [hid, hd, hd']
  cases v.depths.find? mk.id with
  | none => exact .broken _ _
  | some d =>
    have hsuper := getAt_keyword hm.store hstands hm.frame d super_not_proper
    dsimp only
    generalize m.store.getAt m.frame d superName = x at hsuper
    generalize m'.store.getAt m'.frame d superName = x' at hsuper
    cases hsuper with
    | error b b' => exact .broken b b'
    | ok hx =>
      cases hx with
      | nil | bool | number | text | native | function | object => exact .broken _ _
      | cls hparent =>
        rename_i parent parent'
        cases d with
        | zero => exact .broken _ _
        | succ d =>
          have hthis := getAt_keyword hm.store hstands hm.frame d this_not_proper
          dsimp only
          generalize m.store.getAt m.frame d thisName = y at hthis
          generalize m'.store.getAt m'.frame d thisName = y' at hthis
          cases hthis with
          | error b b' => exact .broken b b'
          | ok hy =>
            cases hy with
            | nil | bool | number | text | native | function | cls => exact .broken _ _
            | object i hc =>
              have hmethod := hparent.method? z
              dsimp only
              generalize parent.method? z = c at hmethod
              generalize parent'.method? z = c' at hmethod
              cases hmethod with
              | none => exact .fail hm _
              | some hmth =>
                obtain ⟨W₁, hext, hs, hb⟩ := hm.store.bind hmth (.object i hc)
                exact .done hext (hm.withStore hs) rfl (.function hb)

/-! ### Expressions -/

/-- Expressions are evaluated in the same way. -/
def EvalsAkin (v : Variation) (eval eval' : Expr → Run Value) : Prop :=
  ∀ {W : Frames} {m m' : Machine} {o : Origin} {M : List Bool} {e e' : Expr}, Machines v W m m' →
    Stands W M m.frame → Like v o M (.expr e) (.expr e') →
    Answers v W m.frame (Values v) (eval e m) (eval' e' m')

/-- Values are called in the same way. -/
def CallsAkin (v : Variation) (call call' : Value → List Value → Run Value) : Prop :=
  ∀ {W : Frames} {m m' : Machine} {x x' : Value} {xs xs' : List Value}, Machines v W m m' →
    Values v W x x' → List.Forall₂ (Values v W) xs xs' →
    Answers v W m.frame (Values v) (call x xs m) (call' x' xs' m')

/-- How statements end. -/
inductive FlowsAkin (v : Variation) (W : Frames) : Flow → Flow → Prop
  | next : FlowsAkin v W .next .next
  | returned {x x' : Value} (h : Values v W x x') : FlowsAkin v W (.returned x) (.returned x')

/-- Statements are run in the same way. -/
def ExecsAkin (v : Variation) (exec exec' : Stmt → Run Flow) : Prop :=
  ∀ {W : Frames} {m m' : Machine} {o : Origin} {M : List Bool} {s s' : Stmt}, Machines v W m m' →
    Stands W M m.frame → Like v o M (.stmt s) (.stmt s') →
    Answers v W m.frame (FlowsAkin v) (exec s m) (exec' s' m')

section

variable {eval eval' : Expr → Run Value} {call call' : Value → List Value → Run Value}
  {exec exec' : Stmt → Run Flow}

/-- Expressions in a row. -/
theorem each_akin (he : EvalsAkin v eval eval') : ∀ {es es' : List Expr} {W : Frames}
    {m m' : Machine}, Machines v W m m' → Stands W M m.frame → Like v o M (.exprs es) (.exprs es') →
    Answers v W m.frame (fun W₁ xs xs' => List.Forall₂ (Values v W₁) xs xs')
      (Run.each eval es m) (Run.each eval' es' m')
  | [], _, _, _, _, hm, _, .noExprs => .pure hm .nil
  | e :: es, _ :: _, W, m, m', hm, hstands, .exprs hlike hrest => by
    refine (he hm hstands hlike).bind fun W₁ x x' m₁ m₁' hext₁ hm₁ hf₁ hx => ?_
    rw [← hf₁]
    have hstands₁ : Stands W₁ M m₁.frame := hf₁ ▸ hstands.mono hext₁
    refine (each_akin he hm₁ hstands₁ hrest).bind fun W₂ xs xs' m₂ m₂' hext₂ hm₂ hf₂ hxs => ?_
    rw [← hf₂]
    exact .pure hm₂ (.cons (hx.mono hext₂) hxs)

/-- **An expression and its variant do the same,** if their parts and calls do. -/
theorem exprStep_akin (he : EvalsAkin v eval eval') (hc : CallsAkin v call call') :
    EvalsAkin v (Run.exprStep eval call) (Run.exprStep eval' call') := by
  intro W m m' o M e e' hm hstands hlike
  refine .located hlike.exprSpan ?_
  -- the marks that hold where a later part is evaluated
  have hlater : ∀ {W₁ : Frames} {m₁ : Machine}, Extends W W₁ → m₁.frame = m.frame →
      Stands W₁ M m₁.frame := fun hext hf => hf ▸ hstands.mono hext
  cases hlike with
  | literal => exact .pure hm (literal_akin _ _)
  | group _ h => exact he hm hstands h
  | «variable» h => exact readName_akin hm hstands h
  | assign hr h =>
    refine (he hm hstands h).bind fun W₁ x x' m₁ m₁' hext₁ hm₁ hf₁ hx => ?_
    rw [← hf₁]
    refine (writeName_akin hm₁ (hlater hext₁ hf₁) hr hx).bind
      fun W₂ _ _ m₂ m₂' hext₂ hm₂ hf₂ _ => ?_
    rw [← hf₂]
    exact .pure hm₂ (hx.mono hext₂)
  | unary _ h =>
    refine (he hm hstands h).bind fun W₁ x x' m₁ m₁' hext₁ hm₁ hf₁ hx => ?_
    rw [← hf₁]
    exact ofExcept_akin hm₁ (hx.unary _)
  | binary _ hl hr =>
    refine (he hm hstands hl).bind fun W₁ x x' m₁ m₁' hext₁ hm₁ hf₁ hx => ?_
    rw [← hf₁]
    refine (he hm₁ (hlater hext₁ hf₁) hr).bind fun W₂ y y' m₂ m₂' hext₂ hm₂ hf₂ hy => ?_
    rw [← hf₂]
    exact ofExcept_akin hm₂ ((hx.mono hext₂).binary hy _)
  | @logical _ _ _ op _ _ _ _ _ hl hr =>
    refine (he hm hstands hl).bind fun W₁ x x' m₁ m₁' hext₁ hm₁ hf₁ hx => ?_
    rw [Akin.settledBy hx op, ← hf₁]
    by_cases hop : op.settledBy x = true
    · rw [if_pos hop, if_pos hop]
      exact .pure hm₁ hx
    · rw [if_neg hop, if_neg hop]
      exact he hm₁ (hlater hext₁ hf₁) hr
  | call _ hcallee hargs =>
    refine (he hm hstands hcallee).bind fun W₁ x x' m₁ m₁' hext₁ hm₁ hf₁ hx => ?_
    rw [← hf₁]
    refine (each_akin he hm₁ (hlater hext₁ hf₁) hargs).bind
      fun W₂ xs xs' m₂ m₂' hext₂ hm₂ hf₂ hxs => ?_
    rw [← hf₂]
    exact hc hm₂ (hx.mono hext₂) hxs
  | get _ h =>
    refine (he hm hstands h).bind fun W₁ x x' m₁ m₁' hext₁ hm₁ hf₁ hx => ?_
    rw [← hf₁]
    exact readProperty_akin hm₁ hx _
  | @set _ _ _ _ _ z _ _ _ h hw =>
    refine (he hm hstands h).bind fun W₁ x x' m₁ m₁' hext₁ hm₁ hf₁ hx => ?_
    rw [← hf₁]
    cases hx with
    | nil | bool | number | text | native | function | cls => exact .fail hm₁ _
    | object i _ =>
      refine (he hm₁ (hlater hext₁ hf₁) hw).bind fun W₂ y y' m₂ m₂' hext₂ hm₂ hf₂ hy => ?_
      rw [← hf₂]
      have hwrite : Answers v W₂ m₂.frame (fun _ _ _ => True) (Run.writeProperty i z y m₂)
          (Run.writeProperty i z y' m₂') :=
        .done (.refl W₂) (hm₂.withStore (hm₂.store.field i z hy)) rfl trivial
      refine hwrite.bind fun W₃ _ _ m₃ m₃' hext₃ hm₃ hf₃ _ => ?_
      rw [← hf₃]
      exact .pure hm₃ (hy.mono hext₃)
  | this h hknown => exact readName_akin hm hstands ⟨h, hknown, named_keyword this_not_proper⟩
  | super h hknown => exact readSuper_akin hm hstands h.id hknown _

/-! ### Calls -/

/-- Statements in a row. -/
theorem sequence_akin (hx : ExecsAkin v exec exec') : ∀ {ss ss' : List Stmt} {W : Frames}
    {m m' : Machine}, Machines v W m m' → Stands W M m.frame → Like v o M (.stmts ss) (.stmts ss') →
    Answers v W m.frame (FlowsAkin v) (Run.sequence exec ss m) (Run.sequence exec' ss' m')
  | [], _, _, _, _, hm, _, .noStmts => .pure hm .next
  | s :: ss, _ :: _, W, m, m', hm, hstands, .stmts hlike hrest => by
    refine (hx hm hstands hlike).bind fun W₁ flow flow' m₁ m₁' hext₁ hm₁ hf₁ hflow => ?_
    rw [← hf₁]
    cases hflow with
    | returned h => exact .pure hm₁ (.returned h)
    | next => exact sequence_akin hx hm₁ (hf₁ ▸ hstands.mono hext₁) hrest

theorem currentFrame_akin (hm : Machines v W m m') (hstands : Stands W M m.frame) :
    Answers v W m.frame (fun W₁ ψ ψ' => ψ' = ψ ∧ Stands W₁ M ψ) (Run.currentFrame m)
      (Run.currentFrame m') :=
  .done (.refl W) hm rfl ⟨hm.frame, hstands⟩

/-- A new frame inside of a frame. -/
theorem newFrame_akin (hm : Machines v W m m') {outer : Nat} (hstands : Stands W M outer) {b : Bool}
    {t t' : NameTable Value} (ht : TablesAkin v b (Values v W) t t') :
    Answers v W m.frame (fun W₁ ψ ψ' => ψ' = ψ ∧ Stands W₁ (b :: M) ψ)
      (Run.newFrame outer t m) (Run.newFrame outer t' m') := by
  refine .done (.enter W outer b) (hm.withStore (hm.store.enter outer ht)) rfl ⟨?_, ?_⟩
  · exact hm.store.size'.trans hm.store.size.symm
  · show Stands _ _ m.store.frames.size
    rw [hm.store.size]
    exact hstands.enter b

theorem parameters_akin {b : Bool} : ∀ {params params' : List Declared} {xs xs' : List Value},
    List.Forall₂ (v.Declares o b) params params' → List.Forall₂ (Values v W) xs xs' →
    List.Forall₂ (fun a a' => a'.1 = v.rename b a.1 ∧ (b = true → v.Free a.1) ∧
      Values v W a.2 a'.2) ((params.map Declared.name).zip xs) ((params'.map Declared.name).zip xs')
  | _, _, _, _, .nil, _ => .nil
  | _, _, _, _, .cons _ _, .nil => .nil
  | _, _, _, _, .cons hd hds, .cons hx hxs =>
    .cons ⟨hd.name.eq, fun hb => hd.name.free (.inr hb), hx⟩ (parameters_akin hds hxs)

/-- **A closure is called in the same way.** -/
theorem apply_akin (hx : ExecsAkin v exec exec') (hm : Machines v W m m') {c c' : Closure}
    (hc : ClosuresAkin (Code v W) false c c') {xs xs' : List Value}
    (hxs : List.Forall₂ (Values v W) xs xs') :
    Answers v W m.frame (Values v) (Run.apply exec c xs m) (Run.apply exec' c' xs' m') := by
  obtain ⟨o, M, hstands, hlike⟩ := hc.code
  obtain ⟨ident, ⟨d, params, body⟩, env, isInit⟩ := c
  obtain ⟨ident', ⟨d', params', body'⟩, env', isInit'⟩ := c'
  obtain rfl : env' = env := hc.env
  obtain rfl : isInit' = isInit := hc.isInit
  cases hlike with | code b _ _ hparams hbody => ?_
  refine (newFrame_akin hm hstands (.ofList (parameters_akin hparams hxs))).bind
    fun W₁ ψ ψ' m₁ m₁' hext₁ hm₁ hf₁ hψ => ?_
  rw [← hf₁]
  obtain ⟨rfl, hstands₁⟩ := hψ
  have hrun : Answers v W₁ m₁.frame (FlowsAkin v) (Run.inFrame ψ' (Run.sequence exec body) m₁)
      (Run.inFrame ψ' (Run.sequence exec' body') m₁') :=
    .inFrame hm₁ (sequence_akin hx (hm₁.withFrame ψ') hstands₁ hbody)
  refine hrun.bind fun W₂ flow flow' m₂ m₂' hext₂ hm₂ hf₂ hflow => ?_
  rw [← hf₂]
  cases isInit' with
  | true =>
    have hthis := getAt_keyword hm₂.store (hstands.mono (hext₁.trans hext₂)) rfl 0 this_not_proper
    simp only [↓reduceIte]
    generalize m₂.store.getAt env' 0 thisName = y at hthis
    generalize m₂'.store.getAt env' 0 thisName = y' at hthis
    cases hthis with
    | ok hy => exact .done (.refl W₂) hm₂ rfl hy
    | error => exact .broken _ _
  | false =>
    cases hflow with
    | next => exact .pure hm₂ .nil
    | returned h => exact .pure hm₂ h

/-- **A class is called in the same way.** -/
theorem construct_akin (hx : ExecsAkin v exec exec') (hm : Machines v W m m') {c c' : Class}
    (hc : ClassesAkin (Code v W) c c') {xs xs' : List Value}
    (hxs : List.Forall₂ (Values v W) xs xs') :
    Answers v W m.frame (Values v) (Run.construct exec c xs m) (Run.construct exec' c' xs' m') := by
  have hnew : Answers v W m.frame (fun _ i i' => i' = i) (Run.onStore Store.newObject m)
      (Run.onStore Store.newObject m') :=
    .done (.refl W) (hm.withStore hm.store.object) rfl hm.store.objects
  refine hnew.bind fun W₁ i i' m₁ m₁' hext₁ hm₁ hf₁ hi => ?_
  subst hi
  rw [← hf₁]
  have hc₁ := hc.imp (Code.mono hext₁)
  have hinit := hc₁.method? initName
  unfold Class.init?
  generalize c.method? initName = y at hinit
  generalize c'.method? initName = y' at hinit
  cases hinit with
  | none => exact .pure hm₁ (.object _ hc₁)
  | some hmth =>
    refine (bind_akin hm₁ hmth (.object _ hc₁)).bind fun W₂ b b' m₂ m₂' hext₂ hm₂ hf₂ hb => ?_
    rw [← hf₂]
    have hxs₂ : List.Forall₂ (Values v W₂) xs xs' :=
      hxs.imp fun _ _ h => (h.mono hext₁).mono hext₂
    refine (apply_akin hx hm₂ hb hxs₂).bind fun W₃ _ _ m₃ m₃' hext₃ hm₃ hf₃ _ => ?_
    rw [← hf₃]
    exact .pure hm₃ (.object _ (hc₁.imp (Code.mono (hext₂.trans hext₃))))

/-- **A call does the same on both sides,** if statements do. -/
theorem callStep_akin (hx : ExecsAkin v exec exec') :
    CallsAkin v (Run.callStep exec) (Run.callStep exec') := by
  intro W m m' x x' xs xs' hm hcallee hxs
  have hD := Code.outward v W
  have hkind := Akin.kind hcallee
  unfold Run.callStep
  rw [Akin.arity? hD hcallee, hkind, Akin.display hD hcallee, ← hxs.length_eq]
  cases x.arity? with
  | none => exact .fail hm _
  | some arity =>
    dsimp only
    by_cases hlen : xs.length = arity
    · rw [if_neg (not_not_intro hlen), if_neg (not_not_intro hlen)]
      refine .asCall hm fun hm₁ => ?_
      cases hcallee with
      | nil | bool | number | text | object => exact .fail hm₁ _
      | native n => exact native_akin hm₁ n hxs
      | function hc => exact apply_akin hx hm₁ hc hxs
      | cls hc => exact construct_akin hx hm₁ hc hxs
    · rw [if_pos hlen, if_pos hlen]
      exact .fail hm _

/-! ### Statements -/

/-- The rounds of a loop. -/
theorem rounds_akin (he : EvalsAkin v eval eval') (hx : ExecsAkin v exec exec') {c c' : Expr}
    {body body' : Stmt} (hc : Like v o M (.expr c) (.expr c'))
    (hbody : Like v o M (.stmt body) (.stmt body')) : ∀ (n : Nat) {W : Frames} {m m' : Machine},
    Machines v W m m' → Stands W M m.frame →
    Answers v W m.frame (FlowsAkin v) (Run.rounds (eval c) (exec body) n m)
      (Run.rounds (eval' c') (exec' body') n m')
  | 0, _, _, _, _, _ => .exhausted
  | n + 1, W, m, m', hm, hstands => by
    refine (he hm hstands hc).bind fun W₁ x x' m₁ m₁' hext₁ hm₁ hf₁ hxx => ?_
    have hstands₁ : Stands W₁ M m₁.frame := hf₁ ▸ hstands.mono hext₁
    rw [Akin.isTrue hxx, ← hf₁]
    by_cases htrue : x.isTrue = true
    · rw [if_pos htrue, if_pos htrue]
      refine (hx hm₁ hstands₁ hbody).bind fun W₂ flow flow' m₂ m₂' hext₂ hm₂ hf₂ hflow => ?_
      rw [← hf₂]
      cases hflow with
      | returned h => exact .pure hm₂ (.returned h)
      | next => exact rounds_akin he hx hc hbody n hm₂ (hf₂ ▸ hstands₁.mono hext₂)
    · rw [if_neg htrue, if_neg htrue]
      exact .pure hm₁ .next

/-- The methods of a class are declared in the same way. -/
theorem methods_akin (ψ : Nat) : ∀ {ds ds' : List FunctionDecl} {W : Frames} {m m' : Machine}
    {t t' : NameTable Closure}, Machines v W m m' → Stands W M ψ →
    Like v o (false :: M) (.methods ds) (.methods ds') →
    TablesAlike (ClosuresAkin (Code v W) true) t t' →
    Answers v W m.frame (fun W₁ => TablesAlike (ClosuresAkin (Code v W₁) true))
      (Run.methods ψ ds t m) (Run.methods ψ ds' t' m')
  | [], _, _, _, _, _, _, hm, _, .noMethods, ht => .pure hm ht
  | d :: ds, d' :: ds', W, m, m', t, t', hm, hstands, .methods hd hds, ht => by
    have hname : d'.name = d.name := (Code.outward v W true ψ d d' ⟨o, M, hstands, hd⟩).1
    have hclosure : Answers v W m.frame (fun W₁ => ClosuresAkin (Code v W₁) true)
        (Run.closure ψ d (d.name == initName) m) (Run.closure ψ d' (d.name == initName) m') :=
      .done (.refl W) (hm.withStore hm.store.ident) rfl ⟨hm.store.idents, rfl, rfl, o, M, hstands, hd⟩
    unfold Run.methods
    rw [hname]
    refine hclosure.bind fun W₁ c c' m₁ m₁' hext₁ hm₁ hf₁ hc => ?_
    rw [← hf₁]
    refine methods_akin ψ hm₁ (hstands.mono hext₁) hds (.put (fun x => ?_) _ hc)
    exact optionRel_mono (fun _ _ h => h.imp (Code.mono hext₁)) (ht x)

/-- What a class is declared from: its methods in a frame, and the classes above it. -/
theorem settleClass_akin (hm : Machines v W m m') (hstands : Stands W M m.frame) {ψ : Nat}
    {Mψ : List Bool} (hψ : Stands W Mψ ψ) (hname : v.Named o (M.headD false) z z)
    {ds ds' : List FunctionDecl} (hds : Like v o (false :: Mψ) (.methods ds) (.methods ds'))
    {above above' : List ClassBody} (habove : List.Forall₂ (BodiesAkin (Code v W)) above above') :
    Answers v W m.frame (fun _ _ _ => True)
      ((do let table ← Run.methods ψ ds .empty
           let ident ← Run.newIdent
           Run.define z (.cls ⟨⟨ident, z, table⟩, above⟩) : Run Unit) m)
      ((do let table ← Run.methods ψ ds' .empty
           let ident ← Run.newIdent
           Run.define z (.cls ⟨⟨ident, z, table⟩, above'⟩) : Run Unit) m') := by
  refine (methods_akin ψ hm hψ hds (Lexical.tablesAlike_empty _)).bind
    fun W₁ t t' m₁ m₁' hext₁ hm₁ hf₁ ht => ?_
  rw [← hf₁]
  have hident : Answers v W₁ m₁.frame (fun _ i i' => i' = i) (Run.newIdent m₁) (Run.newIdent m₁') :=
    .done (.refl W₁) (hm₁.withStore hm₁.store.ident) rfl hm₁.store.idents
  refine hident.bind fun W₂ i i' m₂ m₂' hext₂ hm₂ hf₂ hi => ?_
  subst hi
  rw [← hf₂]
  have hext := hext₁.trans hext₂
  refine define_akin hm₂ (hf₂ ▸ hf₁ ▸ hstands.mono hext) hname (.cls (.cons ⟨rfl, rfl, fun x => ?_⟩ ?_))
  · exact optionRel_mono (fun _ _ h => h.imp (Code.mono hext₂)) (ht x)
  · exact habove.imp fun _ _ hb => ⟨hb.ident, hb.name, fun x =>
      optionRel_mono (fun _ _ h => h.imp (Code.mono hext)) (hb.methods x)⟩

/-- **A class is declared in the same way.** -/
theorem declareClass_akin (hm : Machines v W m m') (hstands : Stands W M m.frame)
    (hname : v.Named o (M.headD false) z z) {ds ds' : List FunctionDecl}
    (hds : Like v o (false :: M) (.methods ds) (.methods ds')) :
    Answers v W m.frame (fun _ _ _ => True) (Run.declareClass z none ds m)
      (Run.declareClass z none ds' m') := by
  refine (currentFrame_akin hm hstands).bind fun W₁ ψ ψ' m₁ m₁' hext₁ hm₁ hf₁ hψ => ?_
  obtain ⟨rfl, hψ⟩ := hψ
  rw [← hf₁]
  exact settleClass_akin hm₁ (hf₁ ▸ hstands.mono hext₁) hψ hname hds .nil

/-- **A class with a superclass is declared in the same way,** its methods in a frame of their
own. -/
theorem declareDerived_akin (hm : Machines v W m m') (hstands : Stands W M m.frame)
    (hname : v.Named o (M.headD false) z z) {ds ds' : List FunctionDecl} {c c' : Class}
    (hc : ClassesAkin (Code v W) c c')
    (hds : Like v o (false :: false :: M) (.methods ds) (.methods ds')) :
    Answers v W m.frame (fun _ _ _ => True) (Run.declareClass z (some c) ds m)
      (Run.declareClass z (some c') ds' m') := by
  refine (currentFrame_akin hm hstands).bind fun W₁ ψ ψ' m₁ m₁' hext₁ hm₁ hf₁ hψ => ?_
  obtain ⟨rfl, hψ⟩ := hψ
  rw [← hf₁]
  have hc₁ := hc.imp (Code.mono hext₁)
  refine (newFrame_akin (b := false) hm₁ hψ (.single super_not_proper (.cls hc₁))).bind
    fun W₂ χ χ' m₂ m₂' hext₂ hm₂ hf₂ hχ => ?_
  obtain ⟨rfl, hχ⟩ := hχ
  rw [← hf₂]
  exact settleClass_akin hm₂ (hf₂ ▸ hf₁ ▸ hstands.mono (hext₁.trans hext₂)) hχ hname hds
    (hc₁.imp (Code.mono hext₂))

/-- **A statement and its variant do the same,** if their expressions and statements do. -/
theorem stmtStep_akin (he : EvalsAkin v eval eval') (hx : ExecsAkin v exec exec') (limit : Nat) :
    ExecsAkin v (Run.stmtStep eval exec limit) (Run.stmtStep eval' exec' limit) := by
  intro W m m' o M s s' hm hstands hlike
  refine .located hlike.stmtSpan ?_
  have hlater : ∀ {W₁ : Frames} {m₁ : Machine}, Extends W W₁ → m₁.frame = m.frame →
      Stands W₁ M m₁.frame := fun hext hf => hf ▸ hstands.mono hext
  -- what is left to do behind a step that gives no value
  have hnext : ∀ {W₁ : Frames} {m₁ m₁' : Machine} {r r' : Run Unit},
      Answers v W₁ m₁.frame (fun _ _ _ => True) (r m₁) (r' m₁') →
      Answers v W₁ m₁.frame (FlowsAkin v) ((r >>= fun _ => pure Flow.next) m₁)
        ((r' >>= fun _ => pure Flow.next) m₁') := by
    intro W₁ m₁ m₁' r r' h
    refine h.bind fun W₂ _ _ m₂ m₂' _ hm₂ hf₂ _ => ?_
    rw [← hf₂]
    exact .pure hm₂ .next
  cases hlike with
  | expression _ h =>
    refine (he hm hstands h).bind fun W₁ x x' m₁ m₁' _ hm₁ hf₁ _ => ?_
    rw [← hf₁]
    exact .pure hm₁ .next
  | print _ h =>
    refine (he hm hstands h).bind fun W₁ x x' m₁ m₁' _ hm₁ hf₁ hxx => ?_
    rw [← hf₁, Akin.display (Code.outward v W₁) hxx]
    exact hnext (printLine_akin hm₁ _)
  | var _ hname => exact hnext (define_akin hm hstands hname .nil)
  | varInit _ hname h =>
    refine (he hm hstands h).bind fun W₁ x x' m₁ m₁' hext₁ hm₁ hf₁ hxx => ?_
    rw [← hf₁]
    exact hnext (define_akin hm₁ (hlater hext₁ hf₁) hname hxx)
  | block b _ h =>
    refine (currentFrame_akin hm hstands).bind fun W₁ ψ ψ' m₁ m₁' _ hm₁ hf₁ hψ => ?_
    obtain ⟨rfl, hψ⟩ := hψ
    rw [← hf₁]
    refine (newFrame_akin hm₁ hψ (.empty v b _)).bind fun W₂ χ χ' m₂ m₂' _ hm₂ hf₂ hχ => ?_
    obtain ⟨rfl, hχ⟩ := hχ
    rw [← hf₂]
    exact .inFrame hm₂ (sequence_akin hx (hm₂.withFrame χ') hχ h)
  | branch _ hc hyes =>
    refine (he hm hstands hc).bind fun W₁ x x' m₁ m₁' hext₁ hm₁ hf₁ hxx => ?_
    rw [Akin.isTrue hxx, ← hf₁]
    by_cases htrue : x.isTrue = true
    · rw [if_pos htrue, if_pos htrue]
      exact hx hm₁ (hlater hext₁ hf₁) hyes
    · rw [if_neg htrue, if_neg htrue]
      exact .pure hm₁ .next
  | branchElse _ hc hyes hno =>
    refine (he hm hstands hc).bind fun W₁ x x' m₁ m₁' hext₁ hm₁ hf₁ hxx => ?_
    rw [Akin.isTrue hxx, ← hf₁]
    by_cases htrue : x.isTrue = true
    · rw [if_pos htrue, if_pos htrue]
      exact hx hm₁ (hlater hext₁ hf₁) hyes
    · rw [if_neg htrue, if_neg htrue]
      exact hx hm₁ (hlater hext₁ hf₁) hno
  | loop _ hc hbody => exact rounds_akin he hx hc hbody limit hm hstands
  | @function _ _ _ d d' _ hname hd =>
    refine (currentFrame_akin hm hstands).bind fun W₁ ψ ψ' m₁ m₁' hext₁ hm₁ hf₁ hψ => ?_
    obtain ⟨rfl, hψ⟩ := hψ
    rw [← hf₁]
    have hclosure : Answers v W₁ m₁.frame (fun W₂ => ClosuresAkin (Code v W₂) false)
        (Run.closure ψ' d false m₁) (Run.closure ψ' d' false m₁') :=
      .done (.refl W₁) (hm₁.withStore hm₁.store.ident) rfl
        ⟨hm₁.store.idents, rfl, rfl, o, M, hψ, hd⟩
    refine hclosure.bind fun W₂ c c' m₂ m₂' hext₂ hm₂ hf₂ hc => ?_
    rw [← hf₂]
    exact hnext (define_akin hm₂ (hlater (hext₁.trans hext₂) (hf₂.trans hf₁)) hname (.function hc))
  | «return» => exact .pure hm (.returned .nil)
  | returnValue _ h =>
    refine (he hm hstands h).bind fun W₁ x x' m₁ m₁' _ hm₁ hf₁ hxx => ?_
    rw [← hf₁]
    exact .pure hm₁ (.returned hxx)
  | classDecl _ hd hname hds =>
    have hsame := hd.name
    rw [hname] at hsame
    refine hnext ?_
    rw [hname]
    exact declareClass_akin hm hstands hsame hds
  | @derived _ _ _ _ _ u u' _ _ _ hd hname hu hds =>
    have hsame := hd.name
    rw [hname] at hsame
    have hspan := hu.exprSpan
    have hparent : Answers v W m.frame
        (fun W₁ p p' => ∃ c c', p = some c ∧ p' = some c' ∧ ClassesAkin (Code v W₁) c c')
        (Run.superclass eval (some u) m) (Run.superclass eval' (some u') m') := by
      refine (he hm hstands hu).bind fun W₁ x x' m₁ m₁' _ hm₁ hf₁ hxx => ?_
      rw [← hf₁]
      cases hxx with
      | cls hc => exact .pure hm₁ ⟨_, _, rfl, rfl, hc⟩
      | nil | bool | number | text | native | function | object =>
        exact .located hspan (.fail hm₁ _)
    refine hparent.bind fun W₁ p p' m₁ m₁' hext₁ hm₁ hf₁ hp => ?_
    obtain ⟨c, c', rfl, rfl, hc⟩ := hp
    rw [← hf₁, hname]
    exact hnext (declareDerived_akin hm₁ (hlater hext₁ hf₁) hsame hc hds)

end

/-! ### Whole runs -/

/-- **A program and its variant do the same** with the same fuel. -/
theorem runs_akin (v : Variation) (f : Nat) : EvalsAkin v (eval f) (eval f) ∧
    CallsAkin v (call f) (call f) ∧ ExecsAkin v (exec f) (exec f) := by
  induction f with
  | zero =>
    exact ⟨fun _ _ _ => .exhausted, fun _ _ _ => .exhausted, fun _ _ _ => .exhausted⟩
  | succ f ih =>
    obtain ⟨he, hc, hx⟩ := ih
    refine ⟨?_, ?_, ?_⟩
    · intro W m m' o M e e' hm hstands hlike
      simp only [eval, staged_eq]
      exact exprStep_akin he hc hm hstands hlike
    · intro W m m' x x' xs xs' hm hx' hxs
      simp only [call, staged_eq]
      exact callStep_akin hx hm hx' hxs
    · intro W m m' o M s s' hm hstands hlike
      simp only [exec, staged_eq]
      exact stmtStep_akin he hx f hm hstands hlike

end Variant
end ClassScript
