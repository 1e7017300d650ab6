/-
# Histories of sessions

What has happened in a session since its start, event by event (`History`): in the texts
that were run to an end, in the calls of the host, and where the host read a method of an
object. Whatever a session has come to, it has a history (`Reached.history`), and something
may be going on in it now (`Ongoing`): a run or a call that has not ended yet, or never does.

Key theorems: `History.settled` and `History.ongoing`. Histories are chronicles of the
store, also with what is going on, all their events are sound, and all functions are at
home.
-/
import ClassScript.Proofs.Machine.Chronicled
import ClassScript.Proofs.Session.Sound

namespace ClassScript

open Lexical Scope Traced

/-- The events of a run that has come to an end. -/
def Answer.ended {α : Type} : List Event × Answer α → List Event
  | (es, .done _ _) => es
  | (es, .failed _ _) => es
  | (_, .broken _) => []
  | (_, .exhausted) => []

/-- The events of running a text, if it was run to an end. -/
def Session.runEvents (f : Nat) (s : Session) (text : CharStream) : List Event :=
  match Program.ofParse (text.parse s.nextId) with
  | .ok p => Answer.ended
    (tracedAll f p.body { s.machine with depths := s.machine.depths.merge p.depths })
  | .error _ => []

/-- The events of a call by the host, if it came to an end. -/
def Session.callEvents (f : Nat) (s : Session) (x : String) (args : List Value) : List Event :=
  match s.machine.global? x with
  | some callee => Answer.ended (tracedCall f 0 callee args s.machine)
  | none => []

/-- What the host may do without a run and without a method that is bound. -/
inductive QuietStep (held : List Value) (s : Session) : List Value → Session → Prop
  | obtain {v : Value} (hv : Obtained held s v) : QuietStep held s (v :: held) s
  | assign {i : Nat} {c : Class} {v : Value} (x : String) (hobject : .object i c ∈ held)
    (hv : v ∈ held) :
    QuietStep held s held { s with machine.store := s.machine.store.setField i x v }
  | define {v : Value} (x : String) (hv : v ∈ held) : QuietStep held s held (s.define x v)
  | setMaxCalls (n : Nat) : QuietStep held s held (s.setMaxCalls n)
  | limitOutput (bytes : Nat) : QuietStep held s held (s.limitOutput bytes)
  | takeOutput : QuietStep held s held s.takeOutput.2

/-- A session that has run the programs `ps`, whose host holds the values `held`, with all that has
happened in it. -/
inductive History : List Program → List Value → Session → List Event → Prop
  | start (clock : Nat → Float) : History [] [] (.initial clock) []
  | run {ps : List Program} {held : List Value} {s : Session} {es : List Event}
    (h : History ps held s es) (f : Nat) (text : CharStream) :
    History (s.ended f text ps) held (s.run f text).2 (es ++ s.runEvents f text)
  | called {ps : List Program} {held args : List Value} {s s' : Session} {es : List Event} {f : Nat}
    {x : String} {v : Value} (h : History ps held s es) (hargs : ∀ a ∈ args, a ∈ held)
    (hcall : s.call f x args = (.ok v, s')) :
    History ps (v :: held) s' (es ++ s.callEvents f x args)
  | callFailed {ps : List Program} {held args : List Value} {s s' : Session} {es : List Event}
    {f : Nat} {x : String} {e : RuntimeError} (h : History ps held s es)
    (hargs : ∀ a ∈ args, a ∈ held) (hcall : s.call f x args = (.failed e, s')) :
    History ps held s' (es ++ s.callEvents f x args)
  | property {ps : List Program} {held : List Value} {s : Session} {es : List Event} {i : Nat}
    {c : Class} {x : String} {v : Value} {store : Store} (h : History ps held s es)
    (hobject : .object i c ∈ held) (hv : s.machine.store.property i c x = some (v, store)) :
    History ps (v :: held) { s with machine.store := store }
      (es ++ View.method.see s.machine.moment (Machine.moment { s.machine with store }))
  | quiet {ps : List Program} {held held' : List Value} {s s' : Session} {es : List Event}
    (h : History ps held s es) (hstep : QuietStep held s held' s') : History ps held' s' es

/-- What may be going on in a session: nothing, or a run or a call with the fuel it has had so far. -/
inductive Ongoing (held : List Value) (s : Session) : List Event → Prop
  | rest : Ongoing held s []
  | run {text : CharStream} {p : Program} (f : Nat)
    (hp : Program.ofParse (text.parse s.nextId) = .ok p) : Ongoing held s (s.machine.events f p)
  | call {x : String} {callee : Value} {args : List Value} (f : Nat)
    (hcallee : s.machine.global? x = some callee) (hargs : ∀ a ∈ args, a ∈ held) :
    Ongoing held s (tracedCall f 0 callee args s.machine).1

variable {ps : List Program} {held : List Value} {s : Session} {es es' : List Event} {p : Program}

theorem QuietStep.hostStep {held' : List Value} {s' : Session} (h : QuietStep held s held' s') :
    HostStep ps held s ps held' s' := by
  cases h with
  | obtain hv => exact .obtain hv
  | assign x hobject hv => exact .assign x hobject hv
  | define x hv => exact .define x hv
  | setMaxCalls n => exact .setMaxCalls n
  | limitOutput bytes => exact .limitOutput bytes
  | takeOutput => exact .takeOutput

theorem History.reached (h : History ps held s es) : Reached ps held s := by
  induction h with
  | start clock => exact .start clock
  | run _ f text ih => exact .step ih (.run f text)
  | called _ hargs hcall ih => exact .step ih (.called hargs hcall)
  | callFailed _ hargs hcall ih => exact .step ih (.callFailed hargs hcall)
  | property _ hobject hv ih => exact .step ih (.property hobject hv)
  | quiet _ hstep ih => exact .step ih hstep.hostStep

/-- **Whatever a session has come to, it has a history.** -/
theorem Reached.history (h : Reached ps held s) : ∃ es, History ps held s es := by
  induction h with
  | start clock => exact ⟨[], .start clock⟩
  | step _ hstep ih =>
    obtain ⟨es, h⟩ := ih
    cases hstep with
    | run f text => exact ⟨_, h.run f text⟩
    | called hargs hcall => exact ⟨_, h.called hargs hcall⟩
    | callFailed hargs hcall => exact ⟨_, h.callFailed hargs hcall⟩
    | obtain hv => exact ⟨es, h.quiet (.obtain hv)⟩
    | property hobject hv => exact ⟨_, h.property hobject hv⟩
    | assign x hobject hv => exact ⟨es, h.quiet (.assign x hobject hv)⟩
    | define x hv => exact ⟨es, h.quiet (.define x hv)⟩
    | setMaxCalls n => exact ⟨es, h.quiet (.setMaxCalls n)⟩
    | limitOutput bytes => exact ⟨es, h.quiet (.limitOutput bytes)⟩
    | takeOutput => exact ⟨es, h.quiet .takeOutput⟩

/-! ### Histories are chronicles -/

/-- The events are a chronicle of the store, and all functions are at home: those in the store and
those that the host holds. -/
structure Settled (es : List Event) (held : List Value) (s : Session) : Prop extends
    Recorded es s.machine.store where
  held : ∀ v ∈ held, v.AtHome es s.machine.store

namespace Settled

variable {s' : Session} {v : Value}

theorem initial (clock : Nat → Float) : Settled [] [] (.initial clock) := by
  have hsize : (Session.initial clock).machine.store.frames.size = 1 := rfl
  refine ⟨⟨.start (by rw [hsize]; decide) fun φ hk => hk.1 ?_, fun φ x v hv => ?_, fun i x v hv => ?_⟩,
    by simp⟩
  · have hlt := hk.lt
    rw [hsize] at hlt
    exact Nat.lt_one_iff.mp hlt
  · -- there are no functions but those of the language
    change ((({} : Store).newFrame none _).2).lookup φ x = some v at hv
    rw [Store.lookup_newFrame] at hv
    by_cases hφ : φ = ({} : Store).frames.size
    · rw [if_pos hφ] at hv
      obtain ⟨n, -, hn⟩ := List.mem_map.mp (NameTable.mem_of_find?_ofList hv)
      cases hn
      trivial
    · rw [if_neg hφ] at hv
      cases hv
  · cases hv

theorem cons (h : Settled es held s) (hv : v.AtHome es s.machine.store) :
    Settled es (v :: held) s := by
  refine ⟨h.toRecorded, fun w hw => ?_⟩
  rcases List.mem_cons.mp hw with rfl | hw
  · exact hv
  · exact h.held w hw

/-- What continues the chronicle moves nothing that the host holds. -/
theorem continues {m m' : Machine} (h : Settled es held s) (hm : Continues es es' m m')
    (hfrom : m.store = s.machine.store) (hto : s'.machine.store = m'.store) :
    Settled (es ++ es') held s' := by
  refine ⟨hto ▸ hm.toRecorded, fun v hv => ?_⟩
  rw [hto]
  exact hm.value (hfrom ▸ h.held v hv)

theorem global {x : String} (h : Settled es held s) (hv : s.machine.global? x = some v) :
    v.AtHome es s.machine.store := by
  unfold Machine.global? at hv
  rw [Store.get_global] at hv
  exact h.home.names _ _ _ hv

theorem obtained (h : Settled es held s) (hv : Obtained held s v) : v.AtHome es s.machine.store := by
  cases hv with
  | literal l => exact l.atHome
  | native n => trivial
  | global hx => exact h.global hx
  | classOf hobject =>
    have hclass := h.held _ hobject
    exact hclass
  | superclass hclass =>
    have hchain := h.held _ hclass
    exact fun b hb => hchain b (.tail _ hb)

theorem quiet {held' : List Value} (h : Settled es held s) (hstep : QuietStep held s held' s') :
    Settled es held' s' := by
  cases hstep with
  | obtain hv => exact h.cons (h.obtained hv)
  | setMaxCalls n => exact ⟨h.toRecorded, h.held⟩
  | limitOutput bytes => exact ⟨h.toRecorded, h.held⟩
  | takeOutput => exact ⟨h.toRecorded, h.held⟩
  | define x hv =>
    rename_i w
    have hmoves : s.machine.store.Moves (s.machine.store.define globalFrame x w) :=
      .define (.global h.chronicle.nonempty) (.inl rfl) w
    exact ⟨⟨h.chronicle.move hmoves, h.home.define h.chronicle.nonempty hmoves.toLater (h.held w hv)⟩,
      fun v hv => (h.held v hv).mono (List.Subset.refl _) hmoves.toLater⟩
  | assign x hobject hv =>
    rename_i i _ w
    have hmoves : s.machine.store.Moves (s.machine.store.setField i x w) := .of_frames rfl
    exact ⟨⟨h.chronicle.move hmoves, h.home.setField i (h.held w hv)⟩,
      fun v hv => (h.held v hv).mono (List.Subset.refl _) hmoves.toLater⟩

theorem property {i : Nat} {c : Class} {x : String} {store : Store} (h : Settled es held s)
    (hobject : .object i c ∈ held) (hv : s.machine.store.property i c x = some (v, store)) :
    Settled (es ++ View.method.see s.machine.moment (Machine.moment { s.machine with store }))
      (v :: held) { s with machine.store := store } := by
  have hread : Run.readProperty (.object i c) x s.machine = .done v { s.machine with store } := by
    unfold Run.readProperty
    simp only [hv]
  have hproceeds := Proceeds.readProperty h.toRecorded (h.held _ hobject) x
  unfold Proceeds Traced.seen at hproceeds
  rw [hread] at hproceeds
  cases hproceeds fun e he => View.sound (show e ∈ View.method.see _ _ from he) with
  | done continues result => exact (h.continues continues rfl rfl).cons result

end Settled

/-- Nothing but the global frame is current between two runs. -/
theorem Reached.placed (h : Reached ps held s) (hs : Settled es held s) (depths : Depths) :
    Placed es { s.machine with depths } none := by
  obtain ⟨W, σ, ht, -⟩ := h.tracked
  have hframe : s.machine.frame = globalFrame := ht.frame
  refine ⟨hs.toRecorded, ?_, by simp⟩
  dsimp only
  rw [hframe]
  exact .top hs.chronicle.nonempty

/-- **A text that is run continues the chronicle.** -/
theorem Reached.proceeds_run {text : CharStream} (h : Reached ps held s) (hs : Settled es held s)
    (hp : Program.ofParse (text.parse s.nextId) = .ok p) (f : Nat) :
    let m := { s.machine with depths := s.machine.depths.merge p.depths }
    Proceeded Flow.AtHome es m (tracedAll f p.body m) :=
  Chronicled.sequence ((traced_chronicled f 0).2.2 none) (by rintro _ ⟨⟩) es _ (h.placed hs _)
    ((h.sound f).1 text p hp)

/-- **A call by the host continues the chronicle.** -/
theorem Reached.proceeds_call {x : String} {callee : Value} {args : List Value} (h : Reached ps held s)
    (hs : Settled es held s) (hcallee : s.machine.global? x = some callee)
    (hargs : ∀ a ∈ args, a ∈ held) (f : Nat) :
    Proceeded Value.AtHome es s.machine (tracedCall f 0 callee args s.machine) :=
  (traced_chronicled f 0).2.1 es _ callee args hs.toRecorded (hs.global hcallee)
    (fun a ha => hs.held a (hargs a ha)) ((h.sound f).2 x callee args hcallee hargs)

theorem Reached.settled_run (h : Reached ps held s) (hs : Settled es held s) (f : Nat)
    (text : CharStream) : Settled (es ++ s.runEvents f text) held (s.run f text).2 := by
  have hsame : Settled (es ++ []) held s := by simpa using hs
  unfold Session.runEvents Session.run
  dsimp only
  cases hp : Program.ofParse (text.parse s.nextId) with
  | error e => exact ⟨hsame.toRecorded, hsame.held⟩
  | ok p =>
    have hproceeded := h.proceeds_run hs hp f
    dsimp only [Session.execute] at hproceeded ⊢
    rw [Machine.execute_eq]
    generalize tracedAll f p.body _ = x at hproceeded
    cases hproceeded with
    | done continues _ => exact hs.continues continues rfl rfl
    | failed continues => exact hs.continues continues rfl rfl
    | broken _ => exact ⟨hsame.toRecorded, hsame.held⟩
    | exhausted _ => exact ⟨hsame.toRecorded, hsame.held⟩

theorem Reached.settled_call {args : List Value} {f : Nat} {x : String} {o : Outcome Value}
    {s' : Session} (h : Reached ps held s) (hs : Settled es held s) (hargs : ∀ a ∈ args, a ∈ held)
    (hcall : s.call f x args = (o, s')) :
    Settled (es ++ s.callEvents f x args) held s' ∧
      ∀ v, o = .ok v → v.AtHome (es ++ s.callEvents f x args) s'.machine.store := by
  have hsame : Settled (es ++ []) held s := by simpa using hs
  unfold Session.callEvents
  unfold Session.call at hcall
  cases hcallee : s.machine.global? x with
  | none =>
    rw [hcallee] at hcall
    cases hcall
    exact ⟨hsame, by simp⟩
  | some callee =>
    have hproceeded := h.proceeds_call hs hcallee hargs f
    rw [hcallee] at hcall
    dsimp only at hcall ⊢
    rw [← (traced_run f 0).2.1] at hcall
    unfold Traced.run at hcall
    generalize tracedCall f 0 callee args s.machine = y at hproceeded hcall
    cases hproceeded with
    | done continues result =>
      cases hcall
      refine ⟨hs.continues continues rfl rfl, fun v hv => ?_⟩
      cases hv
      exact result
    | failed continues =>
      cases hcall
      exact ⟨hs.continues continues rfl rfl, by simp⟩
    | broken _ =>
      cases hcall
      exact ⟨hsame, by simp⟩
    | exhausted _ =>
      cases hcall
      exact ⟨hsame, by simp⟩

/-- **A history is a chronicle of the store, and all functions are at home.** -/
theorem History.settled (h : History ps held s es) : Settled es held s := by
  induction h with
  | start clock => exact .initial clock
  | run h f text ih => exact h.reached.settled_run ih f text
  | called h hargs hcall ih =>
    obtain ⟨hsettled, hv⟩ := h.reached.settled_call ih hargs hcall
    exact hsettled.cons (hv _ rfl)
  | callFailed h hargs hcall ih => exact (h.reached.settled_call ih hargs hcall).1
  | property h hobject hv ih => exact ih.property hobject hv
  | quiet h hstep ih => exact ih.quiet hstep

theorem ended_sound {α : Type} {x : List Event × Answer α} (h : ∀ e ∈ x.1, e.Sound) :
    ∀ e ∈ Answer.ended x, e.Sound := by
  obtain ⟨es, x⟩ := x
  cases x with
  | done a m => exact h
  | failed e m => exact h
  | broken b => simp [Answer.ended]
  | exhausted => simp [Answer.ended]

theorem Reached.callEvents_sound {args : List Value} (h : Reached ps held s)
    (hargs : ∀ a ∈ args, a ∈ held) (f : Nat) (x : String) :
    ∀ e ∈ s.callEvents f x args, e.Sound := by
  unfold Session.callEvents
  cases hcallee : s.machine.global? x with
  | none => simp
  | some callee => exact ended_sound ((h.sound f).2 x callee args hcallee hargs)

theorem Reached.runEvents_sound (h : Reached ps held s) (f : Nat) (text : CharStream) :
    ∀ e ∈ s.runEvents f text, e.Sound := by
  unfold Session.runEvents
  cases hp : Program.ofParse (text.parse s.nextId) with
  | error e => simp
  | ok p => exact ended_sound ((h.sound f).1 text p hp)

/-- **All events of a history are sound.** -/
theorem History.sound (h : History ps held s es) : ∀ e ∈ es, e.Sound := by
  have happend : ∀ {es es' : List Event}, (∀ e ∈ es, e.Sound) → (∀ e ∈ es', e.Sound) →
      ∀ e ∈ es ++ es', e.Sound := fun hes hes' e he => (List.mem_append.mp he).elim (hes e) (hes' e)
  induction h with
  | start => simp
  | run h f text ih => exact happend ih (h.reached.runEvents_sound f text)
  | called h hargs hcall ih => exact happend ih (h.reached.callEvents_sound hargs _ _)
  | callFailed h hargs hcall ih => exact happend ih (h.reached.callEvents_sound hargs _ _)
  | property h hobject hv ih => exact happend ih fun e he => View.sound he
  | quiet h hstep ih => exact ih

/-! ### What is going on -/

theorem Proceeded.chronicle {α : Type} {A : List Event → Store → α → Prop} {m : Machine}
    {x : List Event × Answer α} (h : Proceeded A es m x) : ∃ store, Chronicle (es ++ x.1) store := by
  cases h with
  | done continues _ => exact ⟨_, continues.chronicle⟩
  | failed continues => exact ⟨_, continues.chronicle⟩
  | broken chronicle => exact ⟨_, chronicle⟩
  | exhausted chronicle => exact ⟨_, chronicle⟩

/-- **What is going on continues the chronicle,** with sound events. -/
theorem History.ongoing (h : History ps held s es) (ho : Ongoing held s es') :
    (∃ store, Chronicle (es ++ es') store) ∧ ∀ e ∈ es ++ es', e.Sound := by
  have hr := h.reached
  have hs := h.settled
  have hsound : ∀ e ∈ es', e.Sound := by
    cases ho with
    | rest => simp
    | run f hp => exact (hr.sound f).1 _ _ hp
    | call f hcallee hargs => exact (hr.sound f).2 _ _ _ hcallee hargs
  refine ⟨?_, fun e he => (List.mem_append.mp he).elim (h.sound e) (hsound e)⟩
  cases ho with
  | rest => exact ⟨_, by simpa using hs.chronicle⟩
  | run f hp => exact (hr.proceeds_run hs hp f).chronicle
  | call f hcallee hargs => exact (hr.proceeds_call hs hcallee hargs f).chronicle

end ClassScript
