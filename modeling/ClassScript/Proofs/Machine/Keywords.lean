/-
# Steps that continue a chronicle

The events of a run continue a chronicle of the store (`Proceeds`), if each of them is as it
has to be (`Event.Sound`): what is declared and what parameters are called are no keywords,
and what is assigned to is in the current frame or bound already. Then no step writes into a
frame that holds a keyword, for the current frame is never one of these, and a name that
such a frame does not hold is not looked for in it. All functions stay at home.

This module has what goes through all runs (`Proceeds.bind` and its siblings), and the
single steps of the machine.
-/
import ClassScript.Proofs.Machine.Chronicle
import ClassScript.Proofs.Machine.Congruence

namespace ClassScript

open Scope Traced

/-! ### Sound events -/

/-- The reference `id` leads to a frame that is there. It is the current one, or it binds the name. -/
def Moment.Assigns (moment : Moment) (id : Nat) (x : String) : Prop :=
  ∀ d, moment.depths.find? id = some d → ∃ φ, moment.store.ancestor d moment.frame = some φ ∧
    φ < moment.store.frames.size ∧
    (φ = moment.frame ∨ (moment.store.lookup φ x).isSome = true)

/-- The nearest `super` is the class `parent` in the frame `φ`, and the nearest `this` is the object `i`
of the class `c` in the frame `ψ` just inside of it. The reference `id` leads there. -/
structure Moment.SeesSuper (moment : Moment) (id φ ψ : Nat) (parent : Class) (i : Nat) (c : Class) :
    Prop where
  depth : ∃ d, moment.depths.find? id = some (d + 1) ∧
    moment.store.ancestor (d + 1) moment.frame = some φ ∧
    moment.store.ancestor d moment.frame = some ψ
  inside : moment.store.parent? ψ = some φ
  inner : φ ≠ globalFrame ∧ ψ ≠ globalFrame
  superHolder : moment.store.holder? moment.frame superName = some φ
  thisHolder : moment.store.holder? moment.frame thisName = some ψ
  super : moment.store.lookup φ superName = some (.cls parent)
  this : moment.store.lookup ψ thisName = some (.object i c)

/-- What a moment is like at which a node is visited. -/
def Moment.Suits (moment : Moment) : Node → Prop
  | .expr (.assign mark x _) => ProperName x ∧ moment.Assigns mark.id x
  | .expr (.super mark _) => ∃ φ ψ parent i c, moment.SeesSuper mark.id φ ψ parent i c
  | .stmt s => ∀ x ∈ s.declares, ProperName x
  | _ => True

def Closure.ProperParams (c : Closure) : Prop := ∀ q ∈ c.decl.params, ProperName q.name

/-- No parameter of what is called is a keyword. -/
def Value.ProperParams : Value → Prop
  | .function c => c.ProperParams
  | .cls c => ∀ init, c.init? = some init → init.ProperParams
  | _ => True

/-- Events are as they have to be. -/
def Event.Sound (e : Event) : Prop :=
  match e.happening with
  | .visits _ n => e.moment.Suits n
  | .calls _ callee _ => callee.ProperParams
  | _ => True

/-! ### Runs that continue a chronicle -/

variable {α β : Type} {A : List Event → Store → α → Prop} {B : List Event → Store → β → Prop}
  {es es₁ es₂ : List Event} {m m₁ m₂ : Machine} {t : Traced α} {within : Option Closure}

/-- The events are a chronicle of the store, and all functions in it are at home. -/
structure Recorded (es : List Event) (s : Store) : Prop where
  chronicle : Chronicle es s
  home : s.AtHome es

/-- What is known where code of the function `within` runs. -/
structure Placed (es : List Event) (m : Machine) (within : Option Closure) : Prop extends
    Recorded es m.store where
  inside : m.store.Within within m.frame
  function : ∀ k ∈ within, k.AtHome es m.store

/-- From the machine `m` to the machine `m₁` the events `es₁` have continued the chronicle `es`. -/
structure Continues (es es₁ : List Event) (m m₁ : Machine) : Prop extends
    Recorded (es ++ es₁) m₁.store where
  later : m.store.Later m₁.store
  kept : Kept m m₁

/-- How a run has continued the chronicle that went up to the machine `m`. What it yields is as the
property `A` says. -/
inductive Proceeded (A : List Event → Store → α → Prop) (es : List Event) (m : Machine) :
    List Event × Answer α → Prop
  | done {es' : List Event} {a : α} {m' : Machine} (continues : Continues es es' m m')
    (result : A (es ++ es') m'.store a) : Proceeded A es m (es', .done a m')
  | failed {es' : List Event} {e : RuntimeError} {m' : Machine} (continues : Continues es es' m m') :
    Proceeded A es m (es', .failed e m')
  | broken {es' : List Event} {b : Breach} {s : Store} (chronicle : Chronicle (es ++ es') s) :
    Proceeded A es m (es', .broken b)
  | exhausted {es' : List Event} {s : Store} (chronicle : Chronicle (es ++ es') s) :
    Proceeded A es m (es', .exhausted)

/-- From the machine `m` on the run continues the chronicle, if its events are sound. -/
def Proceeds (A : List Event → Store → α → Prop) (es : List Event) (m : Machine) (t : Traced α) :
    Prop :=
  (∀ e ∈ (t m).1, e.Sound) → Proceeded A es m (t m)

namespace Continues

theorem refl (hr : Recorded es m.store) : Continues es [] m m :=
  ⟨by simpa using hr, .refl _, .refl m⟩

theorem trans (h : Continues es es₁ m m₁) (h' : Continues (es ++ es₁) es₂ m₁ m₂) :
    Continues es (es₁ ++ es₂) m m₂ :=
  ⟨by rw [← List.append_assoc]; exact h'.toRecorded, h.later.trans h'.later, h.kept.trans h'.kept⟩

theorem value {v : Value} (h : Continues es es₁ m m₁) (hv : v.AtHome es m.store) :
    v.AtHome (es ++ es₁) m₁.store := hv.mono (List.subset_append_left _ _) h.later

theorem function {k : Closure} (h : Continues es es₁ m m₁) (hk : k.AtHome es m.store) :
    k.AtHome (es ++ es₁) m₁.store := hk.mono (List.subset_append_left _ _) h.later

theorem placed (h : Continues es es₁ m m₁) (hp : Placed es m within) : Placed (es ++ es₁) m₁ within :=
  ⟨h.toRecorded, h.kept.frame ▸ hp.inside.later h.later, fun k hk => h.function (hp.function k hk)⟩

/-- An event that changes nothing. -/
theorem note {e : Event} (hr : Recorded es m.store) (hstore : e.moment.store = m.store)
    (making : e.isMaking = false) (placed : e.Placed es) (hkept : Kept m m₁)
    (hsame : m₁.store = m.store) : Continues es [e] m m₁ := by
  refine ⟨⟨?_, ?_⟩, hsame ▸ .refl _, hkept⟩
  · rw [hsame, ← hstore]
    exact .note (hstore ▸ hr.chronicle) making placed
  · rw [hsame]
    exact hr.home.noted _

end Continues

/-- How a run has continued a chronicle, from an earlier machine on. -/
theorem Proceeded.before {x : List Event × Answer α} (h : Proceeded A (es ++ es₁) m₁ x)
    (hc : Continues es es₁ m m₁) : Proceeded A es m (es₁ ++ x.1, x.2) := by
  cases h with
  | done continues result =>
    exact .done (hc.trans continues) (by rwa [← List.append_assoc])
  | failed continues => exact .failed (hc.trans continues)
  | broken chronicle => exact .broken (by rwa [← List.append_assoc])
  | exhausted chronicle => exact .exhausted (by rwa [← List.append_assoc])

namespace Proceeds

/-- **One run after the other.** -/
theorem bind {g : α → Traced β} (h : Proceeds A es m t)
    (hg : ∀ a es₁ m₁, t m = (es₁, .done a m₁) → Continues es es₁ m m₁ → A (es ++ es₁) m₁.store a →
      Proceeds B (es ++ es₁) m₁ (g a)) : Proceeds B es m (t >>= g) := by
  intro hsound
  change ∀ e ∈ (Traced.bind t g m).1, e.Sound at hsound
  show Proceeded B es m (Traced.bind t g m)
  unfold Traced.bind at hsound ⊢
  unfold Proceeds at h
  generalize ht : t m = x at h hsound
  obtain ⟨es₁, x⟩ := x
  cases x with
  | done a m₁ =>
    dsimp only at hsound ⊢
    cases h fun e he => hsound e (List.mem_append_left _ he) with
    | done continues result =>
      have hnext := hg a es₁ m₁ ht continues result fun e he => hsound e (List.mem_append_right _ he)
      exact hnext.before continues
  | failed e m₁ =>
    cases h hsound with
    | failed continues => exact .failed continues
  | broken b =>
    cases h hsound with
    | broken chronicle => exact .broken chronicle
  | exhausted =>
    cases h hsound with
    | exhausted chronicle => exact .exhausted chronicle

/-- One run after the other, in code of the same function. -/
theorem andThen {g : α → Traced β} (hp : Placed es m within) (h : Proceeds A es m t)
    (hg : ∀ a es₁ m₁, Continues es es₁ m m₁ → Placed (es ++ es₁) m₁ within →
      A (es ++ es₁) m₁.store a → Proceeds B (es ++ es₁) m₁ (g a)) : Proceeds B es m (t >>= g) :=
  h.bind fun a es₁ m₁ _ hcontinues hresult => hg a es₁ m₁ hcontinues (hcontinues.placed hp) hresult

theorem located (span : Span) (h : Proceeds A es m t) : Proceeds A es m (t.located span) := by
  intro hsound
  have hm := h hsound
  unfold Traced.located Run.located Traced.run
  generalize t m = x at hm
  cases hm with
  | done continues result => exact .done continues result
  | failed continues =>
    exact .failed ⟨continues.toRecorded, continues.later, continues.kept⟩
  | broken chronicle => exact .broken chronicle
  | exhausted chronicle => exact .exhausted chronicle

theorem inFrame (frame : Nat) (h : Proceeds A es { m with frame } t) :
    Proceeds A es m (t.inFrame frame) := by
  intro hsound
  have hm := h hsound
  have hback : ∀ {es' m'}, Continues es es' { m with frame } m' →
      Continues es es' m { m' with frame := m.frame } := fun hcontinues =>
    ⟨hcontinues.toRecorded, hcontinues.later, rfl, hcontinues.kept.depths,
      hcontinues.kept.calls, hcontinues.kept.maxCalls, hcontinues.kept.clock⟩
  unfold Traced.inFrame Run.inFrame Traced.run
  dsimp only
  generalize t { m with frame } = x at hm
  cases hm with
  | done continues result => exact .done (hback continues) result
  | failed continues => exact .failed (hback continues)
  | broken chronicle => exact .broken chronicle
  | exhausted chronicle => exact .exhausted chronicle

/-- A node of the function that is running, where it suits the moment. -/
theorem visit {n : Node} (hp : Placed es m within) (hn : Covers within n.homeIds)
    (h : m.moment.Suits n → Placed (es ++ [⟨m.moment, .visits within n⟩]) m within →
      Proceeds A (es ++ [⟨m.moment, .visits within n⟩]) m t) :
    Proceeds A es m (t.visit within n) := by
  intro hsound
  have hnote : Continues es [⟨m.moment, .visits within n⟩] m m :=
    .note hp.toRecorded rfl rfl ⟨hp.inside, hp.function, hn⟩ (.refl m) rfl
  have hsuits : m.moment.Suits n := hsound _ (.head _)
  exact (h hsuits (hnote.placed hp) fun e he => hsound e (.tail _ he)).before hnote

/-- A call of a value with proper parameters. -/
theorem asCall {callee : Value} {args : List Value} {d : Nat} (hr : Recorded es m.store)
    (h : callee.ProperParams →
      Continues es [⟨m.moment, .calls (d + 1) callee args⟩] m m →
      Proceeds A (es ++ [⟨m.moment, .calls (d + 1) callee args⟩]) { m with calls := m.calls + 1 } t) :
    Proceeds A es m (t.asCall d callee args) := by
  have hnote : Continues es [⟨m.moment, .calls (d + 1) callee args⟩] m m :=
    .note hr rfl rfl trivial (.refl m) rfl
  intro hsound
  unfold Traced.asCall Run.asCall at hsound ⊢
  by_cases hdeep : m.maxCalls ≤ m.calls
  · rw [if_pos hdeep, if_pos hdeep]
    exact .failed (.refl hr)
  · rw [if_neg hdeep] at hsound ⊢
    rw [if_neg hdeep]
    have hm := h (hsound _ (.head _)) hnote fun e he => hsound e (.tail _ he)
    have hback : ∀ {es₁ es' m'}, Continues es₁ es' { m with calls := m.calls + 1 } m' →
        Continues es₁ es' m { m' with calls := m'.calls - 1 } := fun hcontinues =>
      ⟨hcontinues.toRecorded, hcontinues.later, hcontinues.kept.frame,
        hcontinues.kept.depths, by simp [hcontinues.kept.calls], hcontinues.kept.maxCalls,
        hcontinues.kept.clock⟩
    unfold Traced.run
    generalize t { m with calls := m.calls + 1 } = x at hm
    cases hm with
    | done continues result => exact (Proceeded.done (hback continues) result).before hnote
    | failed continues => exact (Proceeded.failed (hback continues)).before hnote
    | broken chronicle => exact (Proceeded.broken chronicle).before hnote
    | exhausted chronicle => exact (Proceeded.exhausted chronicle).before hnote

/-! ### Single steps -/

/-- A step that touches no keyword. -/
theorem quiet {r : Run α} (hc : Chronicle es m.store) (hs : Steady r)
    (hmoves : ∀ m' ∈ (r m).machine?, m.store.Moves m'.store)
    (hhome : ∀ m' ∈ (r m).machine?, m'.store.AtHome es)
    (hresult : ∀ a m', r m = .done a m' → A es m'.store a) : Proceeds A es m (Traced.quiet r) := by
  intro _
  have hkeeps := hs m
  unfold Traced.quiet Traced.seen
  generalize r m = x at hkeeps hmoves hhome hresult
  cases hkeeps with
  | done kept =>
    rename_i a m'
    have hmove := hmoves _ rfl
    have hcontinues : Continues es [] m m' :=
      ⟨⟨by simpa using hc.move hmove, by simpa using hhome _ rfl⟩, hmove.toLater, kept⟩
    exact .done hcontinues (by simpa [View.see] using hresult a m' rfl)
  | failed kept =>
    have hmove := hmoves _ rfl
    exact .failed ⟨⟨by simpa using hc.move hmove, by simpa using hhome _ rfl⟩, hmove.toLater, kept⟩
  | broken b => exact .broken (by simpa using hc)
  | exhausted => exact .exhausted (by simpa using hc)

/-- A step that may bind a method to an object. -/
theorem method {r : Run α} (hr : Recorded es m.store) (hs : Steady r)
    (hdone : ∀ a m', r m = .done a m' → (m'.store = m.store ∧ A es m.store a) ∨
      ∃ k i c, k.AtHome es m.store ∧ c.AtHome es m.store ∧
        m'.store = (m.store.bind k (.object i c)).2 ∧
        ∀ es', (m.store.bind k (.object i c)).1.AtHome es' m'.store → A es' m'.store a)
    (hfailed : ∀ e m', r m = .failed e m' → m'.store = m.store) :
    Proceeds A es m (Traced.seen .method r) := by
  intro _
  have hkeeps := hs m
  unfold Traced.seen
  generalize r m = x at hkeeps hdone hfailed
  cases hkeeps with
  | broken b => exact .broken (by simpa using hr.chronicle)
  | exhausted => exact .exhausted (by simpa using hr.chronicle)
  | failed kept =>
    rename_i e m'
    have heq := hfailed e m' rfl
    exact .failed ⟨by simpa [heq] using hr, heq ▸ .refl _, kept⟩
  | done kept =>
    rename_i a m'
    rcases hdone a m' rfl with ⟨heq, hresult⟩ | ⟨k, i, c, hk, hclass, heq, hresult⟩
    · have hsee : View.see .method m.moment m'.moment = [] := by
        simp [View.see, Machine.moment, heq]
      have hcontinues : Continues es [] m m' :=
        ⟨by simpa [heq] using hr, heq ▸ .refl _, kept⟩
      dsimp only
      rw [hsee]
      exact .done hcontinues (by simpa [heq] using hresult)
    · -- the frame of `this`, then an identity for the function
      have hstore : m'.store.frames =
          (m.store.newFrame (some k.env) (NameTable.empty.put thisName (.object i c))).2.frames := by
        rw [heq]
        rfl
      have hsize : m'.store.frames.size = m.store.frames.size + 1 := by
        rw [hstore, Store.size_newFrame]
      have hsee : View.see .method m.moment m'.moment =
          [⟨m'.moment, .binds m.store.frames.size⟩] := by
        have hlt : m.store.frames.size < m'.store.frames.size := by omega
        exact if_pos hlt
      have hident := Store.Moves.of_frames hstore
      have hlater : m.store.Later m'.store := (Store.Later.newFrame _ _ _).trans hident.toLater
      have hmakes : Event.Makes ⟨m'.moment, .binds m.store.frames.size⟩ m.store.frames.size := by
        have hframe : m'.store.frames[m.store.frames.size]? =
            some ⟨some k.env, NameTable.empty.put thisName (.object i c)⟩ := by
          rw [hstore]
          simp [Store.newFrame]
        exact .this (Nat.ne_of_gt hr.chronicle.nonempty) hframe
      obtain ⟨hhome, hbound⟩ := hr.home.bind hr.chronicle.nonempty hk hclass
      rw [← heq] at hhome hbound
      have hcontinues : Continues es [⟨m'.moment, .binds m.store.frames.size⟩] m m' :=
        ⟨⟨hr.chronicle.make hmakes hlater fun φ hφ => (hident.none φ hφ).newFrame, hhome.noted _⟩,
          hlater, kept⟩
      dsimp only
      rw [hsee]
      exact .done hcontinues (hresult _ (hbound.mono (List.subset_append_left _ _) (.refl _)))

/-- The frame of a superclass. Methods that are declared in it are at home. -/
theorem superclass (hr : Recorded es m.store) (outer : Nat) {parent : Class}
    (hparent : parent.AtHome es m.store) (ds : List FunctionDecl) :
    Proceeds (fun es s φ => Home es s φ (FunctionDecl.homeIdsOf ds)) es m
      (Traced.seen (.superclass parent ds)
        (Run.newFrame outer (NameTable.empty.put superName (.cls parent)))) := by
  intro _
  let names : NameTable Value := NameTable.empty.put superName (.cls parent)
  let m₁ : Machine := { m with store := (m.store.newFrame (some outer) names).2 }
  let e : Event := ⟨m₁.moment, .derives m.store.frames.size parent ds⟩
  have hlater : m.store.Later m₁.store := .newFrame m.store (some outer) names
  have hinner : m.store.frames.size ≠ globalFrame := Nat.ne_of_gt hr.chronicle.nonempty
  have hframe : m₁.store.frames[m.store.frames.size]? = some ⟨some outer, names⟩ := by
    simp [m₁, Store.newFrame]
  have hhome : m₁.store.AtHome es :=
    hr.home.newFrame_single outer superName (show (Value.cls parent).AtHome es m.store from hparent)
  have hmakes : e.Makes m.store.frames.size := .super hinner hframe
  have hcontinues : Continues es [e] m m₁ :=
    ⟨⟨hr.chronicle.make hmakes hlater fun φ hk => hk.newFrame, hhome.noted _⟩, hlater, .store m _⟩
  have hbound : (m₁.store.lookup m.store.frames.size superName).isSome = true := by
    simp [Store.lookup, hframe, names]
  refine .done hcontinues ⟨some m.store.frames.size, .here hinner hbound, fun χ hχ => ?_⟩
  cases hχ
  exact ⟨parent, ds, ⟨e, List.mem_append_right _ (.head _), rfl⟩, List.Subset.refl _⟩

/-- A text that is printed. -/
theorem printLine (hr : Recorded es m.store) (span : Span) (text : String) :
    Proceeds (fun _ _ _ => True) es m (Traced.printLine span text) := by
  intro _
  unfold Traced.printLine Run.printLine
  obtain ⟨reason, sink⟩ := m.sink.write (text ++ "\n")
  have hnote : Continues es [⟨m.moment, .prints span (text ++ "\n")⟩] m { m with sink } :=
    .note hr rfl rfl trivial (.sink m sink) rfl
  cases reason with
  | none => exact .done hnote trivial
  | some reason => exact .failed hnote

/-- A new frame without keywords, and what is done with it. -/
theorem newFrame {names : NameTable Value} {g : Nat → Traced β} (hr : Recorded es m.store)
    (outer : Nat) (hproper : ∀ x, ¬ ProperName x → names.find? x = none)
    (hvalues : ∀ x v, names.find? x = some v → v.AtHome es m.store)
    (hg : ∀ {m₁ frame}, Continues es [] m m₁ → m₁.store.Ordinary frame → frame ≠ globalFrame →
      m₁.store.parent? frame = some outer → Proceeds B es m₁ (g frame)) :
    Proceeds B es m (Traced.quiet (Run.newFrame outer names) >>= g) := by
  have hmoves : m.store.Moves (m.store.newFrame (some outer) names).2 := .newFrame _ hproper
  have hstep : Proceeds (fun _ _ _ => True) es m (Traced.quiet (Run.newFrame outer names)) :=
    quiet hr.chronicle (.onStore _) (by rintro m' ⟨⟩; exact hmoves)
      (by rintro m' ⟨⟩; exact hr.home.newFrame outer hvalues) fun _ _ _ => trivial
  refine hstep.bind fun frame es₁ m₁ hm₁ hcontinues _ => ?_
  obtain ⟨rfl, hm₁⟩ := Prod.mk.inj (show ([], _) = (es₁, _) from hm₁)
  cases hm₁
  have hsize := m.store.size_newFrame (some outer) names
  rw [List.append_nil]
  refine hg hcontinues ⟨?_, fun hk => Nat.lt_irrefl _ (hmoves.none _ hk).lt⟩
    (Nat.ne_of_gt hr.chronicle.nonempty) ?_
  · show m.store.frames.size < (m.store.newFrame (some outer) names).2.frames.size
    omega
  · show (m.store.newFrame (some outer) names).2.parent? m.store.frames.size = some outer
    rw [Store.parent?_newFrame, if_pos rfl]

end Proceeds

/-! ### Steps that leave frames and fields as they are -/

/-- The run keeps what no run changes, and what frames and objects hold too. -/
structure Still (r : Run α) : Prop where
  steady : Steady r
  frames : ∀ m, ∀ m' ∈ (r m).machine?, m'.store.frames = m.store.frames
  fields : ∀ m, ∀ m' ∈ (r m).machine?, ∀ i x v, m'.store.field? i x = some v →
    m.store.field? i x = some v

namespace Still

variable {r : Run α}

/-- A step that changes nothing in the store. -/
theorem of_store (hs : Steady r) (h : ∀ m, ∀ m' ∈ (r m).machine?, m'.store = m.store) : Still r :=
  ⟨hs, fun m m' hm' => by rw [h m m' hm'], fun m m' hm' i x v hv => by rwa [h m m' hm'] at hv⟩

theorem pure (a : α) : Still (Pure.pure a : Run α) := of_store (.pure a) (by rintro m _ ⟨⟩; rfl)

theorem fail (fault : Fault) : Still (Run.fail fault : Run α) :=
  of_store (.fail fault) (by rintro m _ ⟨⟩; rfl)

theorem exhausted : Still (Run.exhausted : Run α) :=
  of_store (fun _ => .exhausted) (by rintro m _ ⟨⟩)

theorem newIdent : Still Run.newIdent :=
  ⟨.onStore _, by rintro m _ ⟨⟩; rfl, by rintro m _ ⟨⟩ i x v hv; exact hv⟩

theorem newObject : Still (Run.onStore Store.newObject) :=
  ⟨.onStore _, by rintro m _ ⟨⟩; rfl, by rintro m _ ⟨⟩ i x v hv; exact Store.field?_newObject hv⟩

theorem bind {f : α → Run β} (h : Still r) (hf : ∀ a, Still (f a)) : Still (r >>= f) := by
  refine ⟨h.steady.bind fun a => (hf a).steady, fun m m' hm' => ?_, fun m m' hm' i x v hv => ?_⟩
  · have hm := h.frames m
    change m' ∈ (Run.bind r f m).machine? at hm'
    unfold Run.bind at hm'
    generalize r m = y at hm hm'
    cases y with
    | done a m₁ => rw [(hf a).frames m₁ m' hm', hm m₁ rfl]
    | failed e m₁ => exact hm m' hm'
    | broken b => cases hm'
    | exhausted => cases hm'
  · have hm := h.fields m
    change m' ∈ (Run.bind r f m).machine? at hm'
    unfold Run.bind at hm'
    generalize r m = y at hm hm'
    cases y with
    | done a m₁ => exact hm m₁ rfl i x v ((hf a).fields m₁ m' hm' i x v hv)
    | failed e m₁ => exact hm m' hm' i x v hv
    | broken b => cases hm'
    | exhausted => cases hm'

theorem ofExcept (x : Except Fault α) : Still (Run.ofExcept x) := by
  cases x with
  | ok a => exact .pure a
  | error fault => exact .fail fault

theorem readName (id : Nat) (x : String) : Still (Run.readName id x) := by
  refine of_store (.readName id x) fun m m' hm' => ?_
  unfold Run.readName at hm'
  split at hm'
  · split at hm' <;> cases hm'
    rfl
  · split at hm' <;> cases hm' <;> rfl

theorem native (n : Native) (args : List Value) : Still (Run.native n args) := by
  have hbroken : Still (Run.breach .missingArgument : Run Value) :=
    of_store (fun _ => .broken _) (by rintro m _ ⟨⟩)
  have hclock : Still Run.readClock :=
    of_store (fun _ => .done ⟨rfl, rfl, rfl, rfl, rfl⟩) (by rintro m _ ⟨⟩; rfl)
  cases n with
  | clock => exact hclock.bind fun _ => .pure _
  | str | type =>
    cases args with
    | nil => exact hbroken
    | cons v vs => exact .pure _
  | num =>
    cases args with
    | nil => exact hbroken
    | cons v vs => exact .ofExcept _

/-- What a call of an initializer gives. -/
theorem initialized (env : Nat) : Still fun m => match m.store.getAt env 0 thisName with
    | .ok v => .done v m
    | .error _ => .broken .initWithoutThis := by
  refine of_store (Plain.initialized env).steady fun m m' hm' => ?_
  split at hm' <;> cases hm'
  rfl

theorem closure (frame : Nat) (d : FunctionDecl) (isInit : Bool) :
    Still (Run.closure frame d isInit) := newIdent.bind fun _ => .pure _

theorem methods (frame : Nat) (ds : List FunctionDecl) :
    ∀ table : NameTable Closure, Still (Run.methods frame ds table) := by
  induction ds with
  | nil => exact fun _ => .pure _
  | cons d ds ih => exact fun _ => (closure frame d _).bind fun _ => ih _

theorem proceeds (h : Still r) (hr : Recorded es m.store)
    (hresult : ∀ a m', r m = .done a m' → m.store.Later m'.store → A es m'.store a) :
    Proceeds A es m (Traced.quiet r) := by
  have hmoves : ∀ m' ∈ (r m).machine?, m.store.Moves m'.store := fun m' hm' =>
    .of_frames (h.frames m m' hm')
  refine .quiet hr.chronicle h.steady hmoves (fun m' hm' => ?_) fun a m' hm' => ?_
  · refine hr.home.step (List.Subset.refl _) (hmoves m' hm').toLater (fun φ x v hv => .inl ?_)
      fun i x v hv => .inl (h.fields m m' hm' i x v hv)
    unfold Store.lookup at hv ⊢
    rwa [h.frames m m' hm'] at hv
  · exact hresult a m' hm' (hmoves m' (by rw [hm']; rfl)).toLater

end Still
end ClassScript
