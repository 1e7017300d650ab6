/-
# Events are sound

In a session that can be reached, the events of all runs and calls are as they have to be
(`Event.Sound`). A node is visited where the analysis came to it, in frames that mirror the
scopes there, so that a `super` finds the nearest `super` and the nearest `this`, one just
inside of the other (`suits_of_at`), and what is called is code of a program without faults.

A run that stops at the first event that is not sound (`guarded`) agrees with lexical scoping
like the run itself, and so it never stops.

Key theorem: `Reached.sound`.
-/
import ClassScript.Proofs.Machine.Keywords
import ClassScript.Proofs.Scope.Marked
import ClassScript.Proofs.Session.Mirror

namespace ClassScript

open Lexical Scope Traced

variable {ps : List Program} {W : World} {m : Machine} {σ : State} {φ : Nat} {ρ : Env}
  {c : Context} {n : Node}

/-! ### Where nodes are visited -/

theorem Store.ancestor_succ (s : Store) : ∀ (d φ : Nat),
    s.ancestor (d + 1) φ = (s.ancestor d φ).bind s.parent?
  | 0, φ => by
    rw [Store.ancestor]
    cases h : s.parent? φ <;> simp [Store.ancestor, h]
  | d + 1, φ => by
    rw [Store.ancestor, Store.ancestor]
    cases s.parent? φ with
    | none => rfl
    | some outer => exact s.ancestor_succ d outer

/-- **The nearest frame with a keyword is that of the nearest scope with it.** -/
theorem Mirrors.holder {s : Store} {awaiting : Option String} {scopes : List (NameTable Readiness)}
    {declares : List (List String)} {frames : List Nat} {x : String} {d : Nat}
    (h : Mirrors s φ awaiting scopes declares frames) (hmarked : Marked scopes declares)
    (hx : ¬ ProperName x) (hd : depthIn scopes x = some d)
    (hready : ∀ scope ∈ scopes, scope.find? x ≠ some .declared) (hawaiting : awaiting ≠ some x) :
    ∃ ψ v, s.ancestor d φ = some ψ ∧ ψ ≠ globalFrame ∧ s.holder? φ x = some ψ ∧
      s.lookup ψ x = some v := by
  obtain ⟨scope, hscope, hcontains, hbefore⟩ := depthIn_eq_some hd
  have hlt : d < scopes.length := (List.getElem?_eq_some_iff.mp hscope).1
  have hframe : d < frames.length := h.scopeCount ▸ hlt
  have hψ := List.getElem?_eq_getElem hframe
  have hchain : (s.chain φ)[d]? = some frames[d] := by
    rw [h.chain, List.getElem?_append_left hframe, hψ]
  have hdefined : scope.find? x = some .defined := by
    obtain ⟨r, hr⟩ := Option.isSome_iff_exists.mp hcontains
    cases r with
    | defined => exact hr
    | declared => exact absurd hr (hready scope (List.mem_of_getElem? hscope))
  have hbound := h.binds d _ scope hψ hscope x hdefined fun haw => hawaiting haw.2
  obtain ⟨v, hv⟩ := Option.isSome_iff_exists.mp hbound
  refine ⟨frames[d], v, s.ancestor_of_chain hchain, fun hglobal => ?_, ?_, hv⟩
  · exact h.inner (hglobal ▸ List.getElem_mem hframe)
  · obtain ⟨hlen, hget⟩ := List.getElem?_eq_some_iff.mp hchain
    refine List.find?_eq_some_iff_getElem.mpr ⟨hbound, d, hlen, hget, fun j hj => ?_⟩
    -- a nearer frame that binds the keyword would be that of a nearer scope with it
    have hj' : j < frames.length := Nat.lt_trans hj hframe
    have hjs : j < scopes.length := h.scopeCount ▸ hj'
    have hjd : j < declares.length := h.declareCount ▸ hj'
    have hjlen : j < (s.chain φ).length := Nat.lt_trans hj hlen
    have hgetj : (s.chain φ)[j] = frames[j] := by
      simp only [h.chain]
      exact List.getElem_append_left hj'
    rw [hgetj]
    cases hl : (s.lookup frames[j] x).isSome with
    | false => rfl
    | true =>
      have hnames := h.only j _ _ (List.getElem?_eq_getElem hj') (List.getElem?_eq_getElem hjd) x hl
      have hmark : scopes[j].contains x = true := hmarked.get hjs hjd x hnames hx
      have hnot := hbefore j hj _ (List.getElem?_eq_getElem hjs)
      rw [hmark] at hnot
      cases hnot

/-- What is assigned to is in the current frame, or bound already: only in the innermost scope a name
can wait for its initializer. -/
theorem assigns_of_at {mark : Mark} {x : String} {e : Expr} (hm : Match ps W m σ)
    (ha : At W m.frame ρ c (.expr (.assign mark x e))) : m.moment.Assigns mark.id x := by
  obtain ⟨Δ, hacc, -⟩ := ha.accepted hm
  obtain ⟨frames, hmirrors⟩ := mirrors_of_instances hm.store ha.linked.instances
  have hleads := leadsTo_of_depth hmirrors hacc.tidy (ha.depth hm rfl)
  intro d hd
  unfold LeadsTo at hleads
  rw [show m.depths.find? mark.id = some d from hd] at hleads
  obtain ⟨φ, scope, -, hφ, hframe, hscope, hcontains, -⟩ := hleads
  refine ⟨φ, hφ, ?_⟩
  cases d with
  | zero =>
    obtain rfl : m.frame = φ := Option.some.inj hφ
    exact ⟨hm.store.size ▸ ha.linked.instances.lt_size hm.store.nonempty, .inl rfl⟩
  | succ k =>
    have hmem : scope ∈ c.scopes.tail := by
      rw [← List.getElem?_tail] at hscope
      exact List.mem_of_getElem? hscope
    obtain ⟨r, hr⟩ := Option.isSome_iff_exists.mp hcontains
    cases r with
    | declared => exact absurd hr (hacc.tidy.ready scope hmem x)
    | defined =>
      have hbound := hmirrors.binds (k + 1) φ scope hframe hscope x hr (by simp)
      obtain ⟨v, hv⟩ := Option.isSome_iff_exists.mp hbound
      exact ⟨Store.lt_of_lookup hv, .inr hbound⟩

/-- A `super` finds the nearest `super` and the nearest `this`, one just inside of the other. -/
theorem seesSuper_of_at {mark : Mark} {x : String} (hm : Match ps W m σ)
    (ha : At W m.frame ρ c (.expr (.super mark x))) :
    ∃ φ ψ parent i k, m.moment.SeesSuper mark.id φ ψ parent i k := by
  obtain ⟨Δ, hacc, -⟩ := ha.accepted hm
  obtain ⟨p, hp, hv⟩ := ha.visited
  obtain ⟨frames, hmirrors⟩ := mirrors_of_instances hm.store ha.linked.instances
  have hawaiting : c.awaiting = none := by
    cases hc : c.awaiting with
    | none => rfl
    | some y =>
      obtain ⟨_, _, heq, -⟩ := hacc.fits y hc
      cases heq
  obtain ⟨d, hsuper, hthis⟩ := hacc.tidy.super hacc.super_inside
  have hmarked := hv.marked (hm.built p hp)
  have hholder := fun {x d} (hx : ¬ ProperName x) (hd : depthIn c.scopes x = some d) =>
    hmirrors.holder hmarked hx hd (fun scope hs => hacc.tidy.keyword scope hs x hx) (by simp [hawaiting])
  obtain ⟨φ, v, hφ, hinner, hsuperHolder, hv⟩ := hholder (fun h => h.2 rfl) hsuper
  obtain ⟨ψ, w, hψ, hinner', hthisHolder, hw⟩ := hholder (fun h => h.1 rfl) hthis
  have hlt : ∀ {φ x v}, m.store.lookup φ x = some v → φ < W.size := fun h =>
    hm.store.size ▸ Store.lt_of_lookup h
  obtain ⟨parent, rfl⟩ := hm.store.super φ (hlt hv) hinner v hv
  obtain ⟨i, k, rfl⟩ := hm.store.this ψ (hlt hw) hinner' w hw
  have hdepth : m.depths.find? mark.id = some (d + 1) := (ha.depth hm rfl).trans hsuper
  refine ⟨φ, ψ, parent, i, k, ⟨d, hdepth, hφ, hψ⟩, ?_, ⟨hinner, hinner'⟩, hsuperHolder, hthisHolder,
    hv, hw⟩
  have hstep := m.store.ancestor_succ d m.frame
  rw [hφ, hψ] at hstep
  exact hstep.symm

/-- **A node is visited at a moment that suits it,** if it stands where the analysis came to it. -/
theorem suits_of_at (hm : Match ps W m σ) (ha : At W m.frame ρ c n) : m.moment.Suits n := by
  obtain ⟨Δ, hacc, -⟩ := ha.accepted hm
  cases n with
  | exprs | stmts | function | methods => trivial
  | stmt s => exact proper_declares hacc.proper
  | expr e =>
    cases e with
    | literal | group | «variable» | unary | binary | logical | call | get | set | this => trivial
    | assign mark x e => exact ⟨hacc.proper.1, assigns_of_at hm ha⟩
    | super mark x => exact seesSuper_of_at hm ha

/-! ### What is called -/

/-- Code of a program without faults has no keywords for parameters. -/
theorem Lexical.SameCode.properParams {k : Closure} {k' : Closure Env}
    {around : Context → List (NameTable Readiness) → List (List String) → Prop}
    (hm : Match ps W m σ) (h : SameCode W k k' around) : k.ProperParams := by
  obtain ⟨p, hp, ctx, -, -, hv, -⟩ := h.linked
  have hproper : k.decl.Proper := (hv.accepted (hm.built p hp)).proper
  unfold Closure.ProperParams
  generalize k.decl = d at hproper
  cases d with
  | mk d params body => exact hproper.2.1

theorem Lexical.Alike.properParams {v : Value} {v' : Value Env} (hm : Match ps W m σ)
    (h : Alike W v v') : v.ProperParams := by
  cases h with
  | nil | bool | number | text | native | object => trivial
  | function hc => exact hc.properParams hm
  | cls hc =>
    intro init hinit
    obtain ⟨init', hcode⟩ := hc.init_alike hinit
    exact hcode.properParams hm

/-! ### Runs with sound events -/

/-- Frames that are made for keywords are sound events. -/
theorem View.sound {view : View} {before after : Moment} {e : Event} (h : e ∈ view.see before after) :
    e.Sound := by
  rcases View.mem_see h with ⟨_, hbinds⟩ | ⟨_, _, _, hderives⟩
  · simp only [Event.Sound, hbinds]
  · simp only [Event.Sound, hderives]

section

variable {α β : Type}

/-- The run, unless an event of its traces is not sound, whatever function its code belongs to. -/
noncomputable def guarded (r : Run α) (t : Option Closure → Traced α) : Run α := fun m =>
  open Classical in if ∀ within, ∀ e ∈ (t within m).1, e.Sound then r m else .broken .pastGlobals

/-- Where the run meets no broken invariant, the traced run answers as it does and has sound
events. -/
def Sees (r : Run α) (t : Traced α) : Prop :=
  ∀ m, (∀ b, r m ≠ .broken b) → (t m).2 = r m ∧ ∀ e ∈ (t m).1, e.Sound

variable {r r' : Run α} {t : Option Closure → Traced α}

theorem guarded_sees (hr : ∀ within, (t within).run = r) (within : Option Closure) :
    Sees (guarded r t) (t within) := by
  intro m hm
  unfold guarded at hm ⊢
  by_cases hsound : ∀ within, ∀ e ∈ (t within m).1, e.Sound
  · rw [if_pos hsound, ← hr within]
    exact ⟨rfl, hsound within⟩
  · rw [if_neg hsound] at hm
    exact absurd rfl (hm _)

/-- A run that is seen answers as the guarded one. -/
theorem Sees.guarded (h : ∀ within, Sees r' (t within)) (hr : ∀ within, (t within).run = r)
    (hm : ∀ b, r' m ≠ .broken b) : ClassScript.guarded r t m = r' m := by
  have hsound : ∀ within, ∀ e ∈ (t within m).1, e.Sound := fun within => (h within m hm).2
  unfold ClassScript.guarded
  rw [if_pos hsound, ← hr none]
  exact (h none m hm).1

theorem Sees.guarded_visit (h : ∀ within, Sees r' (t within))
    (hr : ∀ within, ((t within).visit within n).run = r) (hm : ∀ b, r' m ≠ .broken b)
    (hn : m.moment.Suits n) :
    ClassScript.guarded r (fun within => (t within).visit within n) m = r' m := by
  have hsound : ∀ within, ∀ e ∈ ((t within).visit within n m).1, e.Sound := by
    intro within e he
    rcases List.mem_cons.mp he with rfl | he
    · exact hn
    · exact (h within m hm).2 e he
  unfold ClassScript.guarded
  rw [if_pos hsound, ← hr none]
  exact (h none m hm).1

namespace Sees

variable {r : Run α} {t : Traced α} {f : α → Run β} {g : α → Traced β}

theorem seen (view : View) (r : Run α) : Sees r (Traced.seen view r) := by
  intro m _
  refine ⟨rfl, fun e he => ?_⟩
  unfold Traced.seen at he
  dsimp only at he
  split at he
  · exact View.sound he
  · cases he

theorem bind (h : Sees r t) (hg : ∀ a, Sees (f a) (g a)) : Sees (r >>= f) (t >>= g) := by
  intro m hm
  change ∀ b, Run.bind r f m ≠ .broken b at hm
  show (Traced.bind t g m).2 = Run.bind r f m ∧ ∀ e ∈ (Traced.bind t g m).1, e.Sound
  unfold Run.bind at hm ⊢
  unfold Traced.bind
  have hfirst := h m
  generalize t m = x at hfirst
  obtain ⟨es, x⟩ := x
  cases hr : r m with
  | broken b =>
    rw [hr] at hm
    exact absurd rfl (hm b)
  | done a m₁ =>
    rw [hr] at hfirst hm
    obtain ⟨heq, hsound⟩ := hfirst (by simp)
    obtain rfl : x = _ := heq
    obtain ⟨heq', hsound'⟩ := hg a m₁ hm
    refine ⟨heq', fun e he => ?_⟩
    rcases List.mem_append.mp he with he | he
    · exact hsound e he
    · exact hsound' e he
  | failed e m₁ =>
    rw [hr] at hfirst
    obtain ⟨heq, hsound⟩ := hfirst (by simp)
    obtain rfl : x = _ := heq
    exact ⟨rfl, hsound⟩
  | exhausted =>
    rw [hr] at hfirst
    obtain ⟨heq, hsound⟩ := hfirst (by simp)
    obtain rfl : x = _ := heq
    exact ⟨rfl, hsound⟩

theorem located (span : Span) (h : Sees r t) : Sees (r.located span) (t.located span) := by
  intro m hm
  have hunbroken : ∀ b, r m ≠ .broken b := fun b hb => hm b (by simp only [Run.located, hb])
  obtain ⟨heq, hsound⟩ := h m hunbroken
  exact ⟨by simp only [Traced.located, Run.located, Traced.run, heq], hsound⟩

theorem inFrame (frame : Nat) (h : Sees r t) : Sees (r.inFrame frame) (t.inFrame frame) := by
  intro m hm
  have hunbroken : ∀ b, r { m with frame } ≠ .broken b := fun b hb =>
    hm b (by simp only [Run.inFrame, hb, Answer.mapMachine])
  obtain ⟨heq, hsound⟩ := h { m with frame } hunbroken
  exact ⟨by simp only [Traced.inFrame, Run.inFrame, Traced.run, heq], hsound⟩

theorem asCall {callee : Value} (hcallee : callee.ProperParams) (d : Nat) (args : List Value)
    (h : Sees r t) : Sees r.asCall (t.asCall d callee args) := by
  intro m hm
  unfold Run.asCall at hm ⊢
  unfold Traced.asCall Run.asCall
  by_cases hdeep : m.maxCalls ≤ m.calls
  · simp [hdeep]
  · simp only [if_neg hdeep] at hm ⊢
    have hunbroken : ∀ b, r { m with calls := m.calls + 1 } ≠ .broken b := fun b hb =>
      hm b (by simp only [hb, Answer.mapMachine])
    obtain ⟨heq, hsound⟩ := h _ hunbroken
    refine ⟨by simp only [Traced.run, heq], fun e he => ?_⟩
    rcases List.mem_cons.mp he with rfl | he
    · exact hcallee
    · exact hsound e he

theorem printLine (span : Span) (text : String) :
    Sees (Run.printLine text) (Traced.printLine span text) := by
  intro m _
  refine ⟨rfl, fun e he => ?_⟩
  obtain rfl := List.mem_singleton.mp he
  trivial

end Sees

theorem sees_congruence : Congruence Sees where
  seen view _ := .seen view _
  print span h :=
    (h.bind fun v => (Sees.printLine span v.display).bind fun _ => .seen .nothing _).located span
  bind h hf := h.bind hf
  located span h := h.located span
  inFrame frame h := h.inFrame frame

end

/-! ### Guarded evaluation -/

/-- **Guarded evaluation agrees with lexical scoping, too:** all events are sound. -/
theorem guarded_agrees (f : Nat) : ∀ active,
    EvalAgrees ps (fun e => guarded (eval f e) fun within => tracedEval f active within e)
      (Lexical.eval f) ∧
    CallAgrees ps (fun v vs => guarded (call f v vs) fun _ => tracedCall f active v vs)
      (Lexical.call f) ∧
    ExecAgrees ps (fun s => guarded (exec f s) fun within => tracedExec f active within s)
      (Lexical.exec f) := by
  induction f with
  | zero =>
    have hspent : ∀ {α : Type} {m : Machine},
        guarded Run.exhausted (fun _ => quiet (Run.exhausted : Run α)) m = .exhausted := by
      intro α m
      have hsees : Sees (Run.exhausted : Run α) (quiet Run.exhausted) := .seen .nothing _
      exact Sees.guarded (fun _ => hsees) (fun _ => rfl) (by rintro _ ⟨⟩)
    refine fun _ => ⟨fun _ _ => ?_, fun _ _ _ => ?_, fun _ _ _ => ?_⟩
    all_goals
      dsimp only [eval, call, exec, tracedEval, tracedCall, tracedExec]
      rw [hspent]
      exact .exhausted
  | succ f ih =>
    intro active
    obtain ⟨he, hc, hx⟩ := ih active
    obtain ⟨hte, htc, htx⟩ := traced_run f active
    obtain ⟨hte', htc', htx'⟩ := traced_run (f + 1) active
    have hgeval := fun within e => guarded_sees (fun within => hte within e) within
    have hgcall := fun v vs => guarded_sees (fun _ => htc v vs) none
    have hgexec := fun within s => guarded_sees (fun within => htx within s) within
    refine ⟨?_, ?_, ?_⟩
    · intro W m σ ρ c e hm ha
      have hagree := exprStep_agrees he hc hm ha
      have hsees := fun within => sees_congruence.exprStep (hgeval within) hgcall e
      have hguarded := Sees.guarded_visit hsees (fun within => hte' within e) hagree.unbroken
        (suits_of_at hm ha)
      dsimp only [tracedEval]
      rw [hguarded]
      exact hagree
    · intro W m σ v v' vs vs' hm hv hvs
      have hagree := callStep_agrees (ih (active + 1)).2.2 hm hv hvs
      have hsees := sees_congruence.callStep sees_congruence
        (fun k s => guarded_sees (fun within => (traced_run f (active + 1)).2.2 within s) (some k))
        active v vs fun h => h.asCall (hv.properParams hm) active vs
      have hguarded := Sees.guarded (fun _ => hsees) (fun _ => htc' v vs) hagree.unbroken
      dsimp only [tracedCall]
      rw [hguarded]
      exact hagree
    · intro W m σ ρ c s hm ha hexact
      have hagree := stmtStep_agrees he hx f hm ha hexact
      have hsees := fun within => sees_congruence.stmtStep (hgeval within) (hgexec within) f s
      have hguarded := Sees.guarded_visit hsees (fun within => htx' within s) hagree.unbroken
        (suits_of_at hm ha)
      dsimp only [tracedExec]
      rw [hguarded]
      exact hagree

/-! ### Sessions -/

variable {held : List Value} {s : Session}

/-- **All events are sound,** in every run of a text and every call by the host. -/
theorem Reached.sound (h : Reached ps held s) (f : Nat) :
    (∀ (text : CharStream) p, Program.ofParse (text.parse s.nextId) = .ok p →
      ∀ e ∈ s.machine.events f p, e.Sound) ∧
    ∀ x callee args, s.machine.global? x = some callee → (∀ a ∈ args, a ∈ held) →
      ∀ e ∈ (tracedCall f 0 callee args s.machine).1, e.Sound := by
  obtain ⟨W, σ, ht, hheld⟩ := h.tracked
  refine ⟨fun text p hp => ?_, fun x callee args hcallee hargs => ?_⟩
  · have hagree := ht.sequence hp (guarded_agrees f 0).2.2
    have hsees := sees_congruence.sequence
      (fun s => guarded_sees (fun within => (traced_run f 0).2.2 within s) none) p.body
    exact (hsees _ hagree.unbroken).2
  · obtain ⟨callee', halike⟩ := ht.global hcallee
    obtain ⟨args', hargs'⟩ := alike_list fun a ha => hheld a (hargs a ha)
    have hagree := (guarded_agrees f 0).2.1 ht.holds halike hargs'
    exact (guarded_sees (fun _ => (traced_run f 0).2.1 callee args) none _ hagree.unbroken).2

end ClassScript
