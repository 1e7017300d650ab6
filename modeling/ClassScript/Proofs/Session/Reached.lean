/-
# Sessions that can be reached

A host starts a session, runs texts in it, calls global names, and reads and changes what
it has got hold of, in any order (`HostStep`, `Reached`). Whatever it does, the session is
tracked by a state of lexical scoping, and the values that the host holds are alike to
values there (`Tracked`): each step keeps this (`HostStep.tracked`), and so it holds of all
sessions that can be reached (`Reached.tracked`).

Key theorem: `reached_unbroken`. No text and no call meets a broken invariant.
-/
import ClassScript.Proofs.Session.Tracking

namespace ClassScript

open Lexical Scope

/-- The values that a host can form without a run, from those that it holds: constants, functions of
the language, values of global names, classes of objects and superclasses. -/
inductive Obtained (held : List Value) (s : Session) : Value → Prop
  | literal (l : Literal) : Obtained held s l.value
  | native (n : Native) : Obtained held s (.native n)
  | global {x : String} {v : Value} (h : s.machine.global? x = some v) : Obtained held s v
  | classOf {i : Nat} {c : Class} (h : .object i c ∈ held) : Obtained held s (.cls c)
  | superclass {b b' : ClassBody} {bs : List ClassBody} (h : .cls ⟨b, b' :: bs⟩ ∈ held) :
    Obtained held s (.cls ⟨b', bs⟩)

/-- What a host can do to a session that has run the programs `ps`, with the values `held`. -/
inductive HostStep (ps : List Program) (held : List Value) (s : Session) :
    List Program → List Value → Session → Prop
  | run (f : Nat) (text : CharStream) :
    HostStep ps held s (s.ended f text ps) held (s.run f text).2
  | called {args : List Value} {s' : Session} {f : Nat} {x : String} {v : Value}
    (hargs : ∀ a ∈ args, a ∈ held) (h : s.call f x args = (.ok v, s')) :
    HostStep ps held s ps (v :: held) s'
  | callFailed {args : List Value} {s' : Session} {f : Nat} {x : String} {e : RuntimeError}
    (hargs : ∀ a ∈ args, a ∈ held) (h : s.call f x args = (.failed e, s')) :
    HostStep ps held s ps held s'
  | obtain {v : Value} (h : Obtained held s v) : HostStep ps held s ps (v :: held) s
  | property {i : Nat} {c : Class} {x : String} {v : Value} {store : Store}
    (hobject : .object i c ∈ held) (h : s.machine.store.property i c x = some (v, store)) :
    HostStep ps held s ps (v :: held) { s with machine.store := store }
  | assign {i : Nat} {c : Class} {v : Value} (x : String) (hobject : .object i c ∈ held)
    (hv : v ∈ held) :
    HostStep ps held s ps held { s with machine.store := s.machine.store.setField i x v }
  | define {v : Value} (x : String) (hv : v ∈ held) : HostStep ps held s ps held (s.define x v)
  | setMaxCalls (n : Nat) : HostStep ps held s ps held (s.setMaxCalls n)
  | limitOutput (bytes : Nat) : HostStep ps held s ps held (s.limitOutput bytes)
  | takeOutput : HostStep ps held s ps held s.takeOutput.2

/-- A session that has run the programs `ps` to an end, whose host holds the values `held`. -/
inductive Reached : List Program → List Value → Session → Prop
  | start (clock : Nat → Float) : Reached [] [] (.initial clock)
  | step {ps ps' : List Program} {held held' : List Value} {s s' : Session} (h : Reached ps held s)
    (hstep : HostStep ps held s ps' held' s') : Reached ps' held' s'

variable {ps ps' : List Program} {held held' : List Value} {s s' : Session} {W W' : World}
  {σ : State} {m : Machine}

/-! ### What a step keeps -/

/-- The session is tracked, and so are the values that the host holds. -/
def Tracked (ps : List Program) (held : List Value) (s : Session) : Prop :=
  ∃ W σ, Tracks ps s W σ ∧ ∀ v ∈ held, ∃ v', Alike W v v'

/-- Of values that are alike to others there is a list of those. -/
theorem alike_list : ∀ {vs : List Value}, (∀ v ∈ vs, ∃ v', Alike W v v') →
    ∃ vs', List.Forall₂ (Alike W) vs vs'
  | [], _ => ⟨[], .nil⟩
  | v :: vs, h => by
    obtain ⟨v', hv⟩ := h v (.head _)
    obtain ⟨vs', hvs⟩ := alike_list fun w hw => h w (.tail _ hw)
    exact ⟨v' :: vs', .cons hv hvs⟩

theorem held_mono (h : Extends W W') (hheld : ∀ v ∈ held, ∃ v', Alike W v v') :
    ∀ v ∈ held, ∃ v', Alike W' v v' := by
  intro v hv
  obtain ⟨v', halike⟩ := hheld v hv
  exact ⟨v', halike.mono h⟩

/-- Global names have alike values. -/
theorem Tracks.global (h : Tracks ps s W σ) {x : String} {v : Value}
    (hv : s.machine.global? x = some v) : ∃ v', Alike W v v' := by
  have hglobal := h.holds.store.globals x
  unfold Machine.global? at hv
  rw [Store.get_global] at hv
  rw [hv] at hglobal
  generalize σ.globals.find? x = o at hglobal
  cases hglobal with
  | some halike => exact ⟨_, halike⟩

/-- **What a host can form is alike to something.** -/
theorem Obtained.alike (h : Tracks ps s W σ) (hheld : ∀ v ∈ held, ∃ v', Alike W v v') {v : Value}
    (hv : Obtained held s v) : ∃ v', Alike W v v' := by
  cases hv with
  | literal l => exact ⟨_, literal_alike W l⟩
  | native n => exact ⟨_, .native n⟩
  | global hx => exact h.global hx
  | classOf hmem =>
    obtain ⟨v', halike⟩ := hheld _ hmem
    cases halike with
    | object i hc => exact ⟨_, .cls hc⟩
  | superclass hmem =>
    obtain ⟨v', halike⟩ := hheld _ hmem
    cases halike with
    | cls hc =>
      rename_i c'
      obtain ⟨b, bs⟩ := c'
      cases (List.forall₂_cons.mp hc).2 with
      | cons hb hbs => exact ⟨.cls ⟨_, _⟩, .cls (.cons hb hbs)⟩

/-- **A call by the host** ends without a broken invariant, and the session is tracked behind it. -/
theorem Tracks.hostCall (h : Tracks ps s W σ) (f : Nat) (x : String) {args : List Value}
    (hargs : ∀ a ∈ args, ∃ a', Alike W a a') :
    (∀ b, (s.call f x args).1 ≠ .broken b) ∧
      ∃ W' σ', Extends W W' ∧ Tracks ps (s.call f x args).2 W' σ' ∧
        ∀ v, (s.call f x args).1 = .ok v → ∃ v', Alike W' v v' := by
  unfold Session.call
  cases hcallee : s.machine.global? x with
  | none => exact ⟨by simp, W, σ, .refl W, h, by simp⟩
  | some callee =>
    obtain ⟨callee', halike⟩ := h.global hcallee
    obtain ⟨args', hargs'⟩ := alike_list hargs
    have hagree := h.call f halike hargs'
    dsimp only
    generalize ClassScript.call f callee args s.machine = a at hagree
    generalize Lexical.call f callee' args' σ = a' at hagree
    cases hagree with
    | done grows hm hframe hv =>
      refine ⟨by simp [Session.conclude], _, _, grows.toExtends, h.move hm hframe (Nat.le_refl _), ?_⟩
      rintro v ⟨rfl⟩
      exact ⟨_, hv⟩
    | failed grows hm hframe =>
      exact ⟨by simp [Session.conclude], _, _, grows.toExtends, h.move hm hframe (Nat.le_refl _),
        by simp [Session.conclude]⟩
    | exhausted => exact ⟨by simp [Session.conclude], W, σ, .refl W, h, by simp [Session.conclude]⟩

/-- **Whatever the host does, the session stays tracked.** -/
theorem HostStep.tracked (hstep : HostStep ps held s ps' held' s') (h : Tracked ps held s) :
    Tracked ps' held' s' := by
  obtain ⟨W, σ, ht, hheld⟩ := h
  -- a value that is new in the host's hands
  have hcons : ∀ {W : World} {v : Value}, (∃ v', Alike W v v') →
      (∀ v ∈ held, ∃ v', Alike W v v') → ∀ w ∈ v :: held, ∃ w', Alike W w w' := by
    intro W v hv hheld w hw
    rcases List.mem_cons.mp hw with rfl | hw
    · exact hv
    · exact hheld w hw
  cases hstep with
  | run f text =>
    obtain ⟨W', he, ht'⟩ := (ht.run f text).tracks
    exact ⟨W', _, ht', held_mono he hheld⟩
  | called hargs hcall =>
    obtain ⟨-, W', σ', he, ht', hv⟩ := ht.hostCall _ _ fun a ha => hheld a (hargs a ha)
    rw [hcall] at ht' hv
    exact ⟨W', σ', ht', hcons (hv _ rfl) (held_mono he hheld)⟩
  | callFailed hargs hcall =>
    obtain ⟨-, W', σ', he, ht', -⟩ := ht.hostCall _ _ fun a ha => hheld a (hargs a ha)
    rw [hcall] at ht'
    exact ⟨W', σ', ht', held_mono he hheld⟩
  | obtain hv => exact ⟨W, σ, ht, hcons (hv.alike ht hheld) hheld⟩
  | property hobject hv =>
    rename_i i c x v store
    obtain ⟨o, halike⟩ := hheld _ hobject
    have hread : Run.readProperty (.object i c) x s.machine =
        .done v { s.machine with store := store } := by
      unfold Run.readProperty
      simp only [hv]
    have hagree : Agree ps W s.machine.frame [] Alike _ _ := readProperty_agrees ht.holds halike x
    rw [hread, ht.frame] at hagree
    generalize Lexical.Run.readProperty o x σ = a at hagree
    cases hagree with
    | done grows hm hframe halike' =>
      exact ⟨_, _, ht.move hm hframe (Nat.le_refl _),
        hcons ⟨_, halike'⟩ (held_mono grows.toExtends hheld)⟩
  | assign x hobject hv =>
    rename_i i c v
    obtain ⟨v', halike⟩ := hheld _ hv
    have hm := ht.holds.withStore rfl (ht.holds.store.field i x halike) rfl rfl rfl rfl rfl
    exact ⟨W, _, ht.move hm ht.frame (Nat.le_refl _), hheld⟩
  | define x hv =>
    obtain ⟨v', halike⟩ := hheld _ hv
    have hm := ht.holds.withStore rfl (ht.holds.store.global x halike) rfl rfl rfl rfl rfl
    exact ⟨W, _, ht.move hm ht.frame (Nat.le_refl _), hheld⟩
  | setMaxCalls n =>
    exact ⟨W, _, ht.move (ht.holds.withLimits s.machine.sink n) ht.frame (Nat.le_refl _), hheld⟩
  | limitOutput bytes =>
    have hm := ht.holds.withLimits { s.machine.sink with room := some bytes } s.machine.maxCalls
    exact ⟨W, _, ht.move hm ht.frame (Nat.le_refl _), hheld⟩
  | takeOutput =>
    have hm := ht.holds.withLimits { s.machine.sink with written := .empty } s.machine.maxCalls
    exact ⟨W, _, ht.move hm ht.frame (Nat.le_refl _), hheld⟩

/-- **Every session that can be reached is tracked.** -/
theorem Reached.tracked (h : Reached ps held s) : Tracked ps held s := by
  induction h with
  | start clock => exact ⟨_, _, .initial clock, by simp⟩
  | step _ hstep ih => exact hstep.tracked ih

/-! ### Broken invariants -/

/-- **No invariant of the machine is ever broken.** In a session that can be reached, no text and no
call of a global name with values of the host walks past the global frame, misses a name where
the analysis found it, finds `super` or `this` unresolved, misplaced or of the wrong kind, or
runs a function of the language without its argument. -/
theorem reached_unbroken (h : Reached ps held s) (f : Nat) :
    (∀ text b, (s.run f text).1 ≠ .broken b) ∧
      ∀ x args b, (∀ a ∈ args, a ∈ held) → (s.call f x args).1 ≠ .broken b := by
  obtain ⟨W, σ, ht, hheld⟩ := h.tracked
  refine ⟨fun text b => (ht.run f text).unbroken b, fun x args b hargs => ?_⟩
  exact (ht.hostCall f x fun a ha => hheld a (hargs a ha)).1 b

/-- A closure escapes from a block that ends with an error, and the host calls it. -/
theorem reached_unbroken_escaped :
    let text := CharStream.ofString "var g; { var a = 1; fun f() { return a; } g = f; nil(); }"
    let s := (Session.initial fun _ => 0).run 99 text
    Reached ((Session.initial fun _ => 0).ended 99 text []) [] s.2 ∧
      (s.2.call 99 "g" []).1 ≠ .broken (.missingName "a" 1) := by
  intro text s
  have h : Reached _ [] s.2 := .step (.start fun _ => 0) (.run 99 text)
  exact ⟨h, (reached_unbroken h 99).2 "g" [] _ (by simp)⟩

end ClassScript
