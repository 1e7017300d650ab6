/-
# Lexical dispatch of `super`

A method that is called through `super` is looked for in the class that the superclass was
when the class declaration around the expression was executed, and it is bound to the
object that `this` is (`Moment.Dispatches`). What class that object is of, what methods
override the one that is looked for, and what the names of the classes stand for by now is
nothing to it. For the superclass and the object are in frames that were made for them, one
by the declaration and one where the method was bound, and these never change. The running
function finds them from its own environment, wherever it was called.

Key theorem: `super_lexical`.
-/
import ClassScript.Proofs.Session.History

namespace ClassScript

open Lexical Scope Traced

/-- At the moment, after the events `before`, the function `k` is running, and in its code `super.x` is
the method `x` of the class `parent`, bound to the object `i` of the class `c`. -/
structure Moment.Dispatches (moment : Moment) (before : List Event) (k : Closure) (mark : Mark)
    (x : String) (parent : Class) (i : Nat) (c : Class) : Prop where
  own : mark.id ∈ k.decl.homeIds
  /-- The expression stands in a method of a class declaration, and in no class with a superclass that
  is nearer. That declaration was executed with this superclass in the frame `φ`, just inside of
  which a method was bound in the frame `ψ`. They are the nearest frames with `super` and `this`, and
  the function was made inside of them. -/
  frames : ∃ φ ψ methods, (∃ e ∈ before, e.happening = .derives φ parent methods) ∧
    mark.id ∈ FunctionDecl.homeIdsOf methods ∧ (∃ e ∈ before, e.happening = .binds ψ) ∧
    moment.store.parent? ψ = some φ ∧ moment.store.holder? k.env superName = some φ ∧
    moment.store.holder? moment.frame superName = some φ ∧
    moment.store.holder? moment.frame thisName = some ψ
  super : moment.store.get moment.frame superName = some (.cls parent)
  this : moment.store.get moment.frame thisName = some (.object i c)
  value : ∀ f m, m.moment = moment → eval (f + 1) (.super mark x) m =
    match parent.method? x with
    | some method => .done (.function (m.store.bind method (.object i c)).1)
        { m with store := (m.store.bind method (.object i c)).2 }
    | none => .failed ⟨.undefinedProperty x, some mark.span⟩ m

variable {ps : List Program} {held : List Value} {s : Session} {es es' before after : List Event}
  {e : Event} {store : Store} {moment : Moment} {mark : Mark} {φ ψ i : Nat} {parent c : Class}

/-! ### What `super` gives -/

namespace Moment.SeesSuper

/-- **Evaluation of `super`** where the nearest `super` and the nearest `this` are known. -/
theorem eval_super {m : Machine} (h : m.moment.SeesSuper mark.id φ ψ parent i c) (f : Nat)
    (x : String) :
    eval (f + 1) (.super mark x) m =
      match parent.method? x with
      | some method => .done (.function (m.store.bind method (.object i c)).1)
          { m with store := (m.store.bind method (.object i c)).2 }
      | none => .failed ⟨.undefinedProperty x, some mark.span⟩ m := by
  obtain ⟨d, hd, hφ, hψ⟩ := h.depth
  have hd : m.depths.find? mark.id = some (d + 1) := hd
  have hsuper : m.store.getAt m.frame (d + 1) superName = .ok (.cls parent) := by
    have hφ : m.store.ancestor (d + 1) m.frame = some φ := hφ
    have hlookup : m.store.lookup φ superName = some (.cls parent) := h.super
    simp only [Store.getAt, hφ, hlookup]
  have hthis : m.store.getAt m.frame d thisName = .ok (.object i c) := by
    have hψ : m.store.ancestor d m.frame = some ψ := hψ
    have hlookup : m.store.lookup ψ thisName = some (.object i c) := h.this
    simp only [Store.getAt, hψ, hlookup]
  simp only [eval, staged_eq, Run.exprStep, Run.located, Run.readSuper, hd, hsuper, hthis]
  cases parent.method? x with
  | none => rfl
  | some method => rfl

/-- **A function whose code sees a `super` is inside of the class declaration that it is from:** its
environment leads there, and nowhere else. -/
theorem lineage (h : moment.SeesSuper mark.id φ ψ parent i c) {within : Option Closure}
    (hinside : moment.store.Within within moment.frame)
    (hhome : ∀ k ∈ within, k.AtHome before moment.store) :
    ∃ k ∈ within, moment.store.holder? k.env superName = some φ ∧
      ∃ parent methods, (∃ e ∈ before, e.happening = .derives φ parent methods) ∧
        k.decl.homeIds ⊆ FunctionDecl.homeIdsOf methods := by
  have hleads := Store.Leads.of_holder h.inner.1 h.superHolder
  cases within with
  | none => cases hleads.unique (hinside.leads .global)
  | some k =>
    obtain ⟨target, htarget, hderives⟩ := hhome k rfl
    cases hleads.unique (hinside.leads htarget)
    exact ⟨k, rfl, hinside.holder h.superHolder, hderives φ rfl⟩

theorem dispatches {x : String} {within : Option Closure}
    (h : moment.SeesSuper mark.id φ ψ parent i c)
    (hc : Chronicle (before ++ ⟨moment, .visits within (.expr (.super mark x))⟩ :: after) store) :
    ∃ k, within = some k ∧ moment.Dispatches before k mark x parent i c := by
  obtain ⟨hinside, hhome, hcovers⟩ := hc.placed
  obtain ⟨k, rfl, hholder, parent', methods, ⟨e, he, hderives⟩, hids⟩ := h.lineage hinside hhome
  have hown : mark.id ∈ k.decl.homeIds := hcovers k rfl (.head _)
  have hsuper : moment.store.get moment.frame superName = some (.cls parent) := by
    rw [Store.get, h.superHolder]
    exact h.super
  have hthis : moment.store.get moment.frame thisName = some (.object i c) := by
    rw [Store.get, h.thisHolder]
    exact h.this
  -- the class that was declared is the one that is found now
  obtain rfl : parent' = parent := by
    have hderived : moment.store.lookup φ superName = some (.cls parent') :=
      hc.upTo.derived (List.mem_append_left _ he) hderives
    rw [h.super] at hderived
    cases hderived
    rfl
  have hbinds : ∃ e ∈ before, e.happening = .binds ψ := by
    obtain ⟨e, he, hbinds⟩ := hc.upTo.binds h.inner.2 h.this
    rcases List.mem_append.mp he with he | he
    · exact ⟨e, he, hbinds⟩
    · obtain rfl := List.mem_singleton.mp he
      cases hbinds
  refine ⟨k, rfl, hown, ⟨φ, ψ, methods, ⟨e, he, hderives⟩, hids hown, hbinds, h.inside, hholder,
    h.superHolder, h.thisHolder⟩, hsuper, hthis, ?_⟩
  rintro f m rfl
  exact h.eval_super f x

end Moment.SeesSuper

/-! ### Sessions -/

/-- **`super` is dispatched lexically, and `this` and `super` never change.** Whatever a session has
come to and whatever is going on in it, each frame with a keyword was made for it and has held
nothing else since, and each `super.x` that was evaluated is a method of the superclass that the
class declaration around it was executed with. -/
theorem super_lexical (h : Reached ps held s) :
    (∃ es, History ps held s es) ∧ ∀ es es', History ps held s es → Ongoing held s es' →
      (∀ φ, s.machine.store.Keyed φ → ∃ e ∈ es, e.Makes φ) ∧
      (∀ before e after, es ++ es' = before ++ e :: after → e.isMaking = true →
        ∃ φ, e.Makes φ ∧
          (∀ e' ∈ after, e'.moment.store.frames[φ]? = e.moment.store.frames[φ]?) ∧
          (e ∈ es → s.machine.store.frames[φ]? = e.moment.store.frames[φ]?)) ∧
      ∀ before moment within mark x after,
        es ++ es' = before ++ ⟨moment, .visits within (.expr (.super mark x))⟩ :: after →
        ∃ k, within = some k ∧ ∃ parent i c, moment.Dispatches before k mark x parent i c := by
  refine ⟨h.history, fun es es' hh ho => ?_⟩
  have hsettled := hh.settled
  obtain ⟨⟨store, hc⟩, hsound⟩ := hh.ongoing ho
  refine ⟨fun φ hk => hsettled.chronicle.made hk, fun before e after heq hmaking => ?_,
    fun before moment within mark x after heq => ?_⟩
  · rw [heq] at hc
    obtain ⟨φ, hmakes⟩ := hc.makes (List.mem_append_right _ (.head _)) hmaking
    refine ⟨φ, hmakes, fun e' he' => ?_, fun he => hsettled.chronicle.kept he hmakes⟩
    have hordered := (List.pairwise_append.mp hc.ordered).2.1
    exact ((List.pairwise_cons.mp hordered).1 e' he').kept φ hmakes.keyed
  · rw [heq] at hc hsound
    obtain ⟨φ, ψ, parent, i, c, hsees⟩ := hsound _ (List.mem_append_right _ (.head _))
    obtain ⟨k, hk, hdispatches⟩ := hsees.dispatches hc
    exact ⟨k, hk, parent, i, c, hdispatches⟩

/-- The method that is about to be looked for through `super`, if one is. -/
def Event.super? (e : Event) : Option String :=
  match e.happening with
  | .visits _ (.expr (.super _ x)) => some x
  | _ => none

theorem Event.super?_eq_some {happening : Happening} {x : String}
    (h : Event.super? ⟨moment, happening⟩ = some x) :
    ∃ within mark, happening = .visits within (.expr (.super mark x)) := by
  unfold Event.super? at h
  split at h
  · rename_i within mark y heq
    cases h
    exact ⟨within, mark, heq⟩
  · cases h

/-- A function from a method is called when the names of the classes around it are gone. Its `super` is
the superclass of the class that it is from, which is not the superclass of the object's class. -/
theorem super_lexical_late_call :
    let text := CharStream.ofString ("class A { m() {} } " ++
      "class B < A { m() {} t() { fun g() { super.m(); } return g; } } " ++
      "class C < B { m() {} } var g = C().t(); A = nil; B = nil;")
    let s := ((Session.initial fun _ => 0).run 99 text).2
    ∃ ps es callee, History ps [] s es ∧ s.machine.global? "g" = some callee ∧
      ∃ before moment k mark after parent i c,
        es ++ (tracedCall 99 0 callee [] s.machine).1 =
          before ++ ⟨moment, .visits (some k) (.expr (.super mark "m"))⟩ :: after ∧
        moment.Dispatches before k mark "m" parent i c ∧
        (Value.cls parent).display = "A" ∧ (Value.object i c).display = "C instance" := by
  intro text s
  have hvisits : ((s.machine.global? "g").any fun callee =>
      (tracedCall 99 0 callee [] s.machine).1.any fun e => e.super? == some "m" &&
        (e.moment.store.get e.moment.frame superName).map Value.display == some "A" &&
        (e.moment.store.get e.moment.frame thisName).map Value.display == some "C instance") = true := by
    decide +kernel
  cases hcallee : s.machine.global? "g" with
  | none =>
    rw [hcallee] at hvisits
    cases hvisits
  | some callee =>
    rw [hcallee] at hvisits
    obtain ⟨⟨moment, happening⟩, he, hnames⟩ := List.any_eq_true.mp hvisits
    simp only [Bool.and_eq_true, beq_iff_eq] at hnames
    obtain ⟨⟨hvisit, hsuper⟩, hthis⟩ := hnames
    obtain ⟨within, mark, rfl⟩ := Event.super?_eq_some hvisit
    have hh : History _ [] s _ := .run (.start fun _ => 0) 99 text
    have ho : Ongoing [] s (tracedCall 99 0 callee [] s.machine).1 := .call 99 hcallee (by simp)
    obtain ⟨before, after, heq⟩ := List.append_of_mem (List.mem_append_right _ he)
    obtain ⟨k, rfl, parent, i, c, hd⟩ :=
      ((super_lexical hh.reached).2 _ _ hh ho).2.2 before moment within mark "m" after heq
    rw [hd.super] at hsuper
    rw [hd.this] at hthis
    exact ⟨_, _, callee, hh, rfl, before, moment, k, mark, after, parent, i, c, heq, hd,
      Option.some.inj hsuper, Option.some.inj hthis⟩

end ClassScript
