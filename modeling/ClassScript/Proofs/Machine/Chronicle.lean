/-
# Chronicles

A `Chronicle` is a history of the store. In it a frame gets `this` only when a method is
bound to an object, and `super` only when a class gets a superclass: such a frame is made
for its keyword (`Event.Makes`), and from then on it never changes. Where a node is visited,
the code is that of the function that is running, in a frame inside of its environment
(`Event.Placed`).

Key theorems: what holds of all chronicles, by induction over their steps
(`Chronicle.later`, `Chronicle.ordered`, `Chronicle.made`), and at each of their events
(`Chronicle.upTo`, `Chronicle.placed`).
-/
import ClassScript.Proofs.Machine.Lineage

namespace ClassScript

open Scope

/-- At the event a local frame is made for one keyword and holds nothing else. -/
inductive Event.Makes : Event → Nat → Prop
  | this {moment : Moment} {φ outer i : Nat} {c : Class} (inner : φ ≠ globalFrame)
    (frame : moment.store.frames[φ]? =
      some ⟨some outer, NameTable.empty.put thisName (.object i c)⟩) : Makes ⟨moment, .binds φ⟩ φ
  | super {moment : Moment} {φ outer : Nat} {parent : Class} {methods : List FunctionDecl}
    (inner : φ ≠ globalFrame)
    (frame : moment.store.frames[φ]? =
      some ⟨some outer, NameTable.empty.put superName (.cls parent)⟩) :
    Makes ⟨moment, .derives φ parent methods⟩ φ

/-- Whether the event is one at which a frame is made for a keyword. -/
def Event.isMaking (e : Event) : Bool :=
  match e.happening with
  | .binds _ | .derives _ _ _ => true
  | _ => false

/-- The expressions of a node, but for those in methods of classes that have a superclass of their
own. -/
def Scope.Node.homeIds : Node → List Nat
  | .expr e => e.ids
  | .stmt s => s.homeIds
  | _ => []

/-- Where a node is visited, it is one of the function that is running, and the current frame is one
that its code runs in. -/
def Event.Placed (es : List Event) (e : Event) : Prop :=
  match e.happening with
  | .visits within n => e.moment.store.Within within e.moment.frame ∧
      (∀ k ∈ within, k.AtHome es e.moment.store) ∧ Covers within n.homeIds
  | _ => True

/-- A history of the store with its events, up to the store `s`. -/
inductive Chronicle : List Event → Store → Prop
  | start {s : Store} (nonempty : globalFrame < s.frames.size) (none : ∀ φ, ¬ s.Keyed φ) :
    Chronicle [] s
  /-- Something else than keywords has changed. -/
  | move {es : List Event} {s s' : Store} (h : Chronicle es s) (moves : s.Moves s') :
    Chronicle es s'
  /-- An event that changes nothing. -/
  | note {es : List Event} {e : Event} (h : Chronicle es e.moment.store)
    (making : e.isMaking = false) (placed : e.Placed es) : Chronicle (es ++ [e]) e.moment.store
  /-- A frame is made for a keyword. -/
  | make {es : List Event} {s : Store} {e : Event} (h : Chronicle es s)
    (makes : e.Makes s.frames.size) (later : s.Later e.moment.store)
    (only : ∀ φ, e.moment.store.Keyed φ → s.Keyed φ ∨ φ = s.frames.size) :
    Chronicle (es ++ [e]) e.moment.store

theorem Event.Makes.keyed {e : Event} {φ : Nat} (h : e.Makes φ) : e.moment.store.Keyed φ := by
  cases h with
  | this inner frame => exact ⟨inner, .inl (by simp [Store.lookup, frame])⟩
  | super inner frame => exact ⟨inner, .inr (by simp [Store.lookup, frame])⟩

namespace Chronicle

variable {es before after : List Event} {e : Event} {s : Store} {φ : Nat}

theorem nonempty (h : Chronicle es s) : globalFrame < s.frames.size := by
  induction h with
  | start nonempty none => exact nonempty
  | move _ moves ih => exact Nat.lt_of_lt_of_le ih moves.size
  | note _ _ _ ih => exact ih
  | make _ _ later _ ih => exact Nat.lt_of_lt_of_le ih later.size

/-- **Each event comes before all that is behind it.** -/
theorem later (h : Chronicle es s) : ∀ e ∈ es, e.moment.store.Later s := by
  induction h with
  | start => simp
  | move _ moves ih => exact fun e he => (ih e he).trans moves.toLater
  | note _ _ _ ih =>
    intro e he
    rcases List.mem_append.mp he with he | he
    · exact ih e he
    · obtain rfl := List.mem_singleton.mp he
      exact .refl _
  | make _ _ later _ ih =>
    intro e he
    rcases List.mem_append.mp he with he | he
    · exact (ih e he).trans later
    · obtain rfl := List.mem_singleton.mp he
      exact .refl _

/-- **Events come one after the other.** -/
theorem ordered (h : Chronicle es s) :
    es.Pairwise fun e e' => e.moment.store.Later e'.moment.store := by
  induction h with
  | start => exact .nil
  | move _ _ ih => exact ih
  | note h _ _ ih =>
    exact List.pairwise_append.mpr ⟨ih, List.pairwise_singleton _ _, fun e he e' he' => by
      obtain rfl := List.mem_singleton.mp he'
      exact h.later e he⟩
  | make h _ later _ ih =>
    exact List.pairwise_append.mpr ⟨ih, List.pairwise_singleton _ _, fun e he e' he' => by
      obtain rfl := List.mem_singleton.mp he'
      exact (h.later e he).trans later⟩

/-- **Each frame with a keyword was made for it.** -/
theorem made (h : Chronicle es s) (hk : s.Keyed φ) : ∃ e ∈ es, e.Makes φ := by
  induction h generalizing φ with
  | start _ none => exact absurd hk (none φ)
  | move _ moves ih => exact ih (moves.none φ hk)
  | note _ _ _ ih =>
    obtain ⟨e, he, hmakes⟩ := ih hk
    exact ⟨e, List.mem_append_left _ he, hmakes⟩
  | make _ makes _ only ih =>
    rcases only φ hk with hold | rfl
    · obtain ⟨e, he, hmakes⟩ := ih hold
      exact ⟨e, List.mem_append_left _ he, hmakes⟩
    · exact ⟨_, List.mem_append_right _ (.head _), makes⟩

/-- Events that make frames do so for good. -/
theorem makes (h : Chronicle es s) (he : e ∈ es) (hmaking : e.isMaking = true) :
    ∃ φ, e.Makes φ := by
  induction h with
  | start => cases he
  | move _ _ ih => exact ih he
  | note _ making _ ih =>
    rcases List.mem_append.mp he with he | he
    · exact ih he
    · obtain rfl := List.mem_singleton.mp he
      rw [making] at hmaking
      cases hmaking
  | make _ makes _ _ ih =>
    rcases List.mem_append.mp he with he | he
    · exact ih he
    · obtain rfl := List.mem_singleton.mp he
      exact ⟨_, makes⟩

/-- What comes first in a chronicle is a chronicle. -/
theorem of_prefix (h : Chronicle es s) : ∀ {es'}, es' <+: es → ∃ s', Chronicle es' s' := by
  induction h with
  | start nonempty none =>
    intro es' hpre
    rw [List.prefix_nil.mp hpre]
    exact ⟨_, .start nonempty none⟩
  | move _ _ ih => exact ih
  | note h making placed ih =>
    intro es' hpre
    rcases List.prefix_concat_iff.mp hpre with rfl | hpre
    · exact ⟨_, .note h making placed⟩
    · exact ih hpre
  | make h makes later only ih =>
    intro es' hpre
    rcases List.prefix_concat_iff.mp hpre with rfl | hpre
    · exact ⟨_, .make h makes later only⟩
    · exact ih hpre

/-- A chronicle ends with its last event. -/
theorem last (h : Chronicle (es ++ [e]) s) : Chronicle (es ++ [e]) e.moment.store := by
  generalize hes : es ++ [e] = es' at h
  induction h with
  | start => simp at hes
  | move _ _ ih => exact ih hes
  | note h making placed =>
    obtain ⟨-, heq⟩ := List.append_inj' hes rfl
    obtain rfl : e = _ := by simpa using heq
    exact .note h making placed
  | make h makes later only =>
    obtain ⟨-, heq⟩ := List.append_inj' hes rfl
    obtain rfl : e = _ := by simpa using heq
    exact .make h makes later only

/-- **A chronicle up to one of its events is a chronicle.** -/
theorem upTo (h : Chronicle (before ++ e :: after) s) :
    Chronicle (before ++ [e]) e.moment.store := by
  have hpre : before ++ [e] <+: before ++ e :: after := ⟨after, by simp⟩
  obtain ⟨s', h'⟩ := h.of_prefix hpre
  exact h'.last

/-- **Each event has its place** behind those before it. -/
theorem placed (h : Chronicle (before ++ e :: after) s) : e.Placed before := by
  have hlast := h.upTo
  generalize hes : before ++ [e] = es' at hlast
  generalize e.moment.store = s' at hlast
  induction hlast with
  | start => simp at hes
  | move _ _ ih => exact ih hes
  | note _ _ placed =>
    obtain ⟨rfl, heq⟩ := List.append_inj' hes rfl
    obtain rfl : e = _ := by simpa using heq
    exact placed
  | make _ makes =>
    obtain ⟨rfl, heq⟩ := List.append_inj' hes rfl
    obtain rfl : e = _ := by simpa using heq
    cases makes with
    | this => trivial
    | super => trivial

/-- A frame that was made for a keyword holds nothing else, and never changes. -/
theorem kept (h : Chronicle es s) (he : e ∈ es) (hmakes : e.Makes φ) :
    s.frames[φ]? = e.moment.store.frames[φ]? :=
  (h.later e he).kept φ hmakes.keyed

/-- A frame with a keyword holds no other name. -/
theorem single (h : Chronicle es s) (hk : s.Keyed φ) {x : String} (hx : ProperName x) :
    s.lookup φ x = none := by
  obtain ⟨e, he, hmakes⟩ := h.made hk
  have hkept := h.kept he hmakes
  unfold Store.lookup
  rw [hkept]
  cases hmakes with
  | this inner frame =>
    rw [frame]
    exact NameTable.find?_put_of_ne _ _ hx.1.symm
  | super inner frame =>
    rw [frame]
    exact NameTable.find?_put_of_ne _ _ hx.2.symm

/-- **The frame of a superclass holds it for good.** -/
theorem derived {parent : Class} {methods : List FunctionDecl} (h : Chronicle es s) (he : e ∈ es)
    (hderives : e.happening = .derives φ parent methods) :
    s.lookup φ superName = some (.cls parent) := by
  obtain ⟨ψ, hmakes⟩ := h.makes he (by simp [Event.isMaking, hderives])
  have hkept := h.kept he hmakes
  cases hmakes with
  | this => cases hderives
  | super _ frame =>
    cases hderives
    rw [frame] at hkept
    simp [Store.lookup, hkept]

/-- **A local `this` is where a method was bound.** -/
theorem binds {v : Value} (h : Chronicle es s) (inner : φ ≠ globalFrame)
    (hthis : s.lookup φ thisName = some v) : ∃ e ∈ es, e.happening = .binds φ := by
  obtain ⟨e, he, hmakes⟩ := h.made ⟨inner, .inl (by simp [hthis])⟩
  have hkept := h.kept he hmakes
  unfold Store.lookup at hthis
  rw [hkept] at hthis
  cases hmakes with
  | this _ frame => exact ⟨_, he, rfl⟩
  | super _ frame =>
    rw [frame] at hthis
    simp [NameTable.find?_put_of_ne, thisName, superName] at hthis

end Chronicle
end ClassScript
