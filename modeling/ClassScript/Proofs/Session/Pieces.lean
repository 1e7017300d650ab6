/-
# A program may be run in pieces

Two texts that are run one after the other do the same as the text of both with a line end
between them, if the first one succeeds. The statements of the second text are in another
place there, and its references have entries in a table with those of the first; that the
machine is put to rest in between makes no difference, since runs leave no frame and no call
behind (`Reached.atRest`).

What is the same are the outcome, the output, and the machine with all its frames, objects
and values (`Machine.Resembles`). Only spans differ, in errors and in the code of functions,
where they come from the second text. With the statements of the second text moved to where
they are in the text of both, nothing differs at all.

Key theorem: `run_in_pieces`.
-/
import ClassScript.Proofs.Session.Joined
import ClassScript.Proofs.Session.Rest
import ClassScript.Proofs.Variant.Spans
import ClassScript.Proofs.Variant.Start

namespace ClassScript

open Scope Variant Variation

variable {ps ps' : List Program} {held held' : List Value} {s s' : Session} {p q : Program}

/-! ### The same but for spans -/

/-- Machines that differ in the code of functions at most, which is related by `D`. Tables are the
same if they hold the same. -/
structure Machine.Resembles (D : FunctionDecl → FunctionDecl → Prop) (m m' : Machine) : Prop where
  frameCount : m'.store.frames.size = m.store.frames.size
  parent : ∀ φ, m'.store.parent? φ = m.store.parent? φ
  names : ∀ φ x, Option.Rel (Akin fun _ _ => D) (m.store.lookup φ x) (m'.store.lookup φ x)
  objectCount : m'.store.objects.size = m.store.objects.size
  fields : ∀ i x, Option.Rel (Akin fun _ _ => D) (m.store.field? i x) (m'.store.field? i x)
  idents : m'.store.idents = m.store.idents
  frame : m'.frame = m.frame
  depths : ∀ id, m'.depths.find? id = m.depths.find? id
  sink : m'.sink = m.sink
  calls : m'.calls = m.calls
  maxCalls : m'.maxCalls = m.maxCalls
  clock : m'.clock = m.clock
  readings : m'.readings = m.readings

/-- Outcomes of texts and the sessions behind them that are the same but for the spans of errors,
related by `R`, and for the code of functions, related by `D`. -/
inductive Resembling (R : Span → Span → Prop) (D : FunctionDecl → FunctionDecl → Prop) :
    Outcome Unit × Session → Outcome Unit × Session → Prop
  | ok {m m' : Machine} {n : Nat} (hm : m.Resembles D m') :
    Resembling R D (.ok (), ⟨m, n⟩) (.ok (), ⟨m', n⟩)
  | failed {e e' : RuntimeError} {m m' : Machine} {n : Nat} (fault : e'.fault = e.fault)
    (span : Option.Rel R e.span e'.span) (hm : m.Resembles D m') :
    Resembling R D (.failed e, ⟨m, n⟩) (.failed e', ⟨m', n⟩)
  | exhausted {s s' : Session} : Resembling R D (.exhausted, s) (.exhausted, s')

section

variable {R : Span → Span → Prop} {D : FunctionDecl → FunctionDecl → Prop} {Δ : Depths}
  {g : Span → Span} {W : Frames} {m m' : Machine} {φ n : Nat}

theorem respanned_spans (hR : ∀ t, R t t ∧ R t (g t)) {o : Origin} {t t' : Span}
    (h : (respanned Δ g).spans o t t') : R t t' := by
  cases o with
  | earlier =>
    obtain rfl : t' = t := h
    exact (hR t').1
  | here =>
    obtain rfl : t' = g t := h
    exact (hR t).2

/-- Code that differs in its spans. -/
theorem respanned_code (hD : ∀ d, D d d ∧ D d (d.mapSpans g)) (method : Bool) (env : Nat)
    (d d' : FunctionDecl) (h : Code (respanned Δ g) W method env d d') : D d d' := by
  obtain ⟨o, M, -, hlike⟩ := h
  cases o with
  | earlier =>
    cases hlike.eq_mapSpans (g := id) rfl fun _ _ hs => hs
    rw [FunctionDecl.mapSpans_id]
    exact (hD d).1
  | here =>
    cases hlike.eq_mapSpans (g := g) rfl fun _ _ hs => hs
    exact (hD d).2

/-- Machines that run a program and the same with other spans resemble each other at rest. -/
theorem Variant.Machines.resembles (hD : ∀ d, D d d ∧ D d (d.mapSpans g))
    (h : Machines (respanned Δ g) W m m') : m.atRest.Resembles D m'.atRest := by
  have hs := h.store
  have hakin : ∀ {o o'}, Option.Rel (Akin (Code (respanned Δ g) W)) o o' →
      Option.Rel (Akin fun _ _ => D) o o' :=
    Lexical.optionRel_mono fun _ _ ha => ha.imp (respanned_code hD)
  have hnone : ∀ {t : Store} {φ}, t.frames.size = W.size → ¬ φ < W.size → t.frames[φ]? = none :=
    fun hsize hφ => Array.getElem?_eq_none (by omega)
  refine ⟨hs.size'.trans hs.size.symm, fun φ => ?_, fun φ x => ?_, hs.objects,
    fun i x => hakin (hs.fields i x), hs.idents, rfl,
    fun id => (h.depths id trivial).2.trans (h.depths id trivial).1.symm, h.sink, rfl, h.maxCalls,
    h.clock, h.readings⟩
  · by_cases hφ : φ < W.size
    · exact (hs.parent' φ hφ).trans (hs.parent φ hφ).symm
    · show m'.store.parent? φ = m.store.parent? φ
      rw [Store.parent?, Store.parent?, hnone hs.size hφ, hnone hs.size' hφ]
  · by_cases hφ : φ < W.size
    · exact hakin (hs.names φ hφ x fun _ _ _ hc => by cases hc)
    · show Option.Rel _ (m.store.lookup φ x) (m'.store.lookup φ x)
      rw [Store.lookup, Store.lookup, hnone hs.size hφ, hnone hs.size' hφ]
      exact .none

end

/-! ### Two programs -/

/-- A program is run to its end: none of its statements returns. -/
theorem Program.Built.onward (hp : p.Built) (f : Nat) : Onward (execAll f p.body) :=
  sequence_onward (fun ha hc => exec_onward f ha hc) (accepted_start hp) rfl

section

variable {R : Span → Span → Prop} {D : FunctionDecl → FunctionDecl → Prop} {Δ : Depths}
  {g : Span → Span} {text : CharStream} {m : Machine} {f n : Nat}

/-- **The first of two programs does the same in front of the second one as by itself.** Neither looks
at depths of references of the other. -/
theorem front_akin (h : Reached ps held s) (hp : Program.ofParse (text.parse s.nextId) = .ok p)
    (hΔ : ∀ r ∈ p :: ps, ∀ id ∈ Stmt.idsOf r.body, Δ.find? id = p.depths.find? id) (f : Nat) :
    let old : Nat → Prop := fun id => ∃ r ∈ p :: ps, id ∈ Stmt.idsOf r.body
    let v := (respanned (s.machine.depths.merge Δ) g).knowing old
    ∃ W, Stands W [] globalFrame ∧ Answers v W globalFrame (FlowsAkin v)
      (execAll f p.body { s.machine with depths := s.machine.depths.merge p.depths })
      (execAll f p.body { s.machine with depths := s.machine.depths.merge Δ }) := by
  intro old v
  obtain ⟨W, σ, ht, -⟩ := h.tracked
  have hm := ht.program hp
  have hstart : Machines v (.ofWorld { W with texts := p :: W.texts })
      { s.machine with depths := s.machine.depths.merge p.depths }
      { s.machine with depths := s.machine.depths.merge Δ } := by
    refine ⟨storesAkin_self hm ⟨fun r hr id hid => ⟨r, hr, hid⟩, fun _ _ _ _ => rfl⟩, rfl, ?_, rfl,
      rfl, rfl, rfl, rfl⟩
    rintro id ⟨r, hr, hid⟩
    refine ⟨?_, rfl⟩
    show (s.machine.depths.merge p.depths).find? id = (s.machine.depths.merge Δ).find? id
    rw [Depths.find?_merge, Depths.find?_merge, hΔ r hr id hid]
  have hstands : Stands (.ofWorld { W with texts := p :: W.texts }) [] globalFrame :=
    .ground hm.store.nonempty hm.store.root rfl
  have hlike : Like v .earlier [] (.stmts p.body) (.stmts p.body) := by
    have hlike := Stmt.like_mapSpansOf (v := v) (o := .earlier) (g := id) (named_earlier _) (M := [])
      (by simp) (fun id hid => ⟨p, .head _, hid⟩) (fun _ _ => rfl)
    rwa [Stmt.mapSpansOf_id] at hlike
  have hruns := sequence_akin (runs_akin v f).2.2 hstart (ht.frame ▸ hstands) hlike
  exact ⟨_, hstands, ht.frame ▸ hruns⟩

/-- **The second of two programs starts behind the first one as by itself.** -/
theorem between_akin (h : Reached ps held s) (hp : Program.ofParse (text.parse s.nextId) = .ok p)
    (hΔ : ∀ id, Δ.find? id = (q.depths.find? id).or (p.depths.find? id))
    (hnew : ∀ r ∈ p :: ps, ∀ id ∈ Stmt.idsOf r.body, q.depths.find? id = none)
    (hrun : s.machine.execute f p = .done () m) (g : Span → Span) :
    ∃ W m', execAll f p.body { s.machine with depths := s.machine.depths.merge Δ } = .done .next m' ∧
      Machines (respanned (s.machine.depths.merge Δ) g) W
        { m with depths := m.depths.merge q.depths } m' ∧ Stands W [] m.frame := by
  obtain ⟨W, hstands, hruns⟩ := front_akin (g := g) h hp
    (fun r hr id hid => by rw [hΔ, hnew r hr id hid, Option.none_or]) f
  have hkeeps : ∀ Δ, Keeps _ (execAll f p.body _) := fun Δ => sequence_steady (runs_steady f).2.2
    p.body { s.machine with depths := s.machine.depths.merge Δ }
  have honward := (Program.ofParse_built hp).1.onward f
    { s.machine with depths := s.machine.depths.merge p.depths }
  have hkept := hkeeps p.depths
  have hkept' := hkeeps Δ
  unfold Machine.execute at hrun
  generalize execAll f p.body _ = x at hruns hrun honward hkept
  generalize execAll f p.body _ = y at hruns hkept' ⊢
  cases hruns with
  | failed | broken | exhausted => cases hrun
  | @done W' _ _ m₁ m₁' hext hm hframe hflow =>
    cases hrun
    cases hkept with | done hkept => ?_
    cases hkept' with | done hkept' => ?_
    cases hflow with
    | returned hv => exact absurd rfl (honward _ _)
    | next =>
      have hrest : s.machine.frame = globalFrame ∧ s.machine.calls = 0 := by
        rw [← h.atRest]
        exact ⟨rfl, rfl⟩
      refine ⟨W', m₁', rfl, ⟨hm.store.knowing fun _ _ => trivial, hkept'.frame.trans hrest.1, ?_,
        hm.sink, hkept'.calls.trans hrest.2, hm.maxCalls, hm.clock, hm.readings⟩, hstands.mono hext⟩
      intro id _
      refine ⟨?_, by rw [hkept'.depths]; rfl⟩
      show (m₁.depths.merge q.depths).find? id = (s.machine.depths.merge Δ).find? id
      rw [hkept.depths, Depths.find?_merge, Depths.find?_merge, Depths.find?_merge, hΔ,
        Option.or_assoc]

/-- **Two programs do the same as one.** -/
theorem execute_resembles (h : Reached ps held s)
    (hp : Program.ofParse (text.parse s.nextId) = .ok p)
    (hΔ : ∀ id, Δ.find? id = (q.depths.find? id).or (p.depths.find? id))
    (hnew : ∀ r ∈ p :: ps, ∀ id ∈ Stmt.idsOf r.body, q.depths.find? id = none)
    (hrun : s.machine.execute f p = .done () m) (n : Nat)
    (hR : ∀ t, R t t ∧ R t (g t)) (hD : ∀ d, D d d ∧ D d (d.mapSpans g))
    (hunbroken : ∀ b, (Session.execute f ⟨s.machine, n⟩
      ⟨p.body ++ q.body.map (Stmt.mapSpans g), Δ⟩).1 ≠ .broken b) :
    Resembling R D (Session.execute f ⟨m, n⟩ q)
      (Session.execute f ⟨s.machine, n⟩ ⟨p.body ++ q.body.map (Stmt.mapSpans g), Δ⟩) := by
  obtain ⟨W, m', hfront, hm, hstands⟩ := between_akin h hp hΔ hnew hrun g
  have hruns := sequence_akin (runs_akin _ f).2.2 hm hstands
    (like_respanned (s.machine.depths.merge Δ) g q.body)
  have hall : execAll f (p.body ++ q.body.map (Stmt.mapSpans g))
      { s.machine with depths := s.machine.depths.merge Δ } =
      Run.sequence (exec f) (q.body.map (Stmt.mapSpans g)) m' := by
    unfold execAll at hfront ⊢
    rw [sequence_append]
    show Run.bind _ _ _ = _
    unfold Run.bind
    rw [hfront]
  unfold Session.execute Machine.execute at hunbroken ⊢
  dsimp only at hunbroken ⊢
  rw [hall] at hunbroken ⊢
  unfold execAll
  generalize Run.sequence (exec f) q.body _ = x at hruns ⊢
  generalize Run.sequence (exec f) (q.body.map _) _ = y at hruns hunbroken ⊢
  cases hruns with
  | done _ hm _ _ => exact .ok (hm.resembles hD)
  | failed _ hm _ he =>
    refine .failed he.fault ?_ (hm.resembles hD)
    exact Lexical.optionRel_mono (fun _ _ ⟨_, hs⟩ => respanned_spans hR hs) he.span
  | broken b b' => exact absurd rfl (hunbroken b')
  | exhausted => exact .exhausted

end

/-! ### Two texts -/

section

variable {text : CharStream} {f : Nat}

/-- A text that can be built is run as its program is. -/
theorem Session.run_built (hp : Program.ofParse (text.parse s.nextId) = .ok p) (f : Nat) :
    s.run f text = Session.execute f ⟨s.machine, (text.parse s.nextId).nextId⟩ p := by
  unfold Session.run
  dsimp only
  rw [hp]

/-- A text that succeeds leaves the machine in which its program ended. -/
theorem Session.execute_of_run_ok (hp : Program.ofParse (text.parse s.nextId) = .ok p)
    (hrun : s.run f text = (.ok (), s')) :
    s.machine.execute f p = .done () s'.machine ∧ s'.nextId = (text.parse s.nextId).nextId := by
  rw [Session.run_built hp, Session.execute] at hrun
  cases hm : s.machine.execute f p with
  | done u m =>
    rw [hm] at hrun
    cases hrun
    exact ⟨rfl, rfl⟩
  | failed | broken | exhausted =>
    rw [hm] at hrun
    cases hrun

/-- The depths of a program say nothing about the references of those that were built before it. -/
theorem depths_of_earlier {n : Nat} (hq : Program.ofParse (text.parse n) = .ok q) {id : Nat}
    (hid : id < n) : q.depths.find? id = none := by
  obtain ⟨hbuilt, hfresh⟩ := Program.ofParse_built hq
  refine depths_own hbuilt fun hmem => ?_
  have hle := (hfresh.mem id hmem).1
  omega

/-- The identities of a text that is run come before those of the next one. -/
theorem Reached.ids_lt (h : Reached ps held s) (hp : Program.ofParse (text.parse s.nextId) = .ok p) :
    ∀ r ∈ p :: ps, ∀ id ∈ Stmt.idsOf r.body, id < (text.parse s.nextId).nextId := by
  obtain ⟨W, σ, ht, -⟩ := h.tracked
  intro r hr id hid
  rcases List.mem_cons.mp hr with rfl | hr
  · exact ((Program.ofParse_built hp).2.mem id hid).2
  · exact Nat.lt_of_lt_of_le (ht.old r hr id hid) (firstId_le_nextId _ _)

/-- Programs that were built one after the other have no reference in common. -/
theorem depths_disjoint {text' : CharStream} {n : Nat} (hp : Program.ofParse (text.parse n) = .ok p)
    (hq : Program.ofParse (text'.parse (text.parse n).nextId) = .ok q) (id : Nat) :
    p.depths.find? id = none ∨ q.depths.find? id = none := by
  by_cases hid : id < (text.parse n).nextId
  · exact .inr (depths_of_earlier hq hid)
  · obtain ⟨hbuilt, hfresh⟩ := Program.ofParse_built hp
    refine .inl (depths_own hbuilt fun hmem => ?_)
    have hlt := (hfresh.mem id hmem).2
    omega

end

/-- **A program may be run in pieces.** In a session that can be reached, let two texts be built one
after the other. Then the text of both, with a line end between them, can be built: its statements
are those of the first text and, moved behind it, those of the second one, and its depths are the
union of those of both. And if the first text succeeds, it has the same outcome, output and machine
as the second text behind the first one. Spans are those of the first text or of earlier ones, or
are moved spans of the second text: with its program moved, all spans are the same, too. -/
theorem run_in_pieces (h : Reached ps held s) {P Q : String}
    (hp : Program.ofParse ((CharStream.ofString P).parse s.nextId) = .ok p)
    (hq : Program.ofParse
      ((CharStream.ofString Q).parse ((CharStream.ofString P).parse s.nextId).nextId) = .ok q) :
    let k := P.length + 1
    let whole := CharStream.ofString (P ++ "\n" ++ Q)
    (∃ Δ, Program.ofParse (whole.parse s.nextId) = .ok ⟨p.body ++ (q.shift k).body, Δ⟩ ∧
      (∀ id, Δ.find? id = (q.depths.find? id).or (p.depths.find? id)) ∧
      ∀ id, p.depths.find? id = none ∨ q.depths.find? id = none) ∧
    ∀ f s₁, s.run f (.ofString P) = (.ok (), s₁) →
      Resembling (fun t t' => t' = t ∨ t' = t.shift k)
          (fun d d' => d' = d ∨ d' = d.mapSpans (.shift k))
          (s₁.run f (.ofString Q)) (s.run f whole) ∧
        Resembling Eq Eq (Session.execute f ⟨s₁.machine, (whole.parse s.nextId).nextId⟩ (q.shift k))
          (s.run f whole) := by
  intro k whole
  obtain ⟨Δ, hwhole, hΔ, hid⟩ := ofParse_join hp hq
  refine ⟨⟨Δ, hwhole, hΔ, depths_disjoint hp hq⟩, fun f s₁ hrun => ?_⟩
  obtain ⟨hfirst, hnext⟩ := Session.execute_of_run_ok hp hrun
  have hnew : ∀ r ∈ p :: ps, ∀ id ∈ Stmt.idsOf r.body, q.depths.find? id = none :=
    fun r hr id hmem => depths_of_earlier hq (h.ids_lt hp r hr id hmem)
  have hsecond : s₁.run f (.ofString Q) =
      Session.execute f ⟨s₁.machine, (whole.parse s.nextId).nextId⟩ q := by
    rw [Session.run_built (hnext ▸ hq), hnext, hid]
  have hall := Session.run_built hwhole f
  have hunbroken : ∀ b, (s.run f whole).1 ≠ .broken b := by
    obtain ⟨W, σ, ht, -⟩ := h.tracked
    exact (ht.run f whole).unbroken
  rw [hall] at hunbroken ⊢
  constructor
  · rw [hsecond]
    exact execute_resembles h hp hΔ hnew hfirst _ (fun t => ⟨.inl rfl, .inr rfl⟩)
      (fun d => ⟨.inl rfl, .inr rfl⟩) hunbroken
  · -- with the spans of the second program moved beforehand, no span is changed any more
    have hsame : (q.shift k).body.map (Stmt.mapSpans id) = (q.shift k).body :=
      (List.map_congr_left fun t _ => Stmt.mapSpans_id t).trans (List.map_id _)
    have hmoved := execute_resembles (q := q.shift k) (g := id) (R := Eq) (D := Eq) h hp hΔ hnew
      hfirst (whole.parse s.nextId).nextId (fun t => ⟨rfl, rfl⟩)
      (fun d => ⟨rfl, (FunctionDecl.mapSpans_id d).symm⟩) (by rwa [hsame])
    rwa [hsame] at hmoved

/-- The second text calls a function of the first one, which fails. -/
theorem run_in_pieces_failing_call :
    let P := "fun f(a) { return -a; } print f;"
    let Q := "var g = f; print f(nil);"
    let s := Session.initial fun _ => 0
    ∃ p q s₁, Program.ofParse ((CharStream.ofString P).parse 0) = .ok p ∧
      Program.ofParse
        ((CharStream.ofString Q).parse ((CharStream.ofString P).parse 0).nextId) = .ok q ∧
      s.run 99 (.ofString P) = (.ok (), s₁) ∧
      Resembling (fun t t' => t' = t ∨ t' = t.shift (P.length + 1))
        (fun d d' => d' = d ∨ d' = d.mapSpans (.shift (P.length + 1)))
        (s₁.run 99 (.ofString Q)) (s.run 99 (.ofString (P ++ "\n" ++ Q))) := by
  intro P Q s
  have hP : (Program.ofParse ((CharStream.ofString P).parse 0)).toOption.isSome = true := by
    decide +kernel
  have hQ : (Program.ofParse ((CharStream.ofString Q).parse
      ((CharStream.ofString P).parse 0).nextId)).toOption.isSome = true := by
    decide +kernel
  have hrun : (match (s.run 99 (.ofString P)).1 with | .ok _ => true | _ => false) = true := by
    decide +kernel
  cases hp : Program.ofParse ((CharStream.ofString P).parse 0) with
  | error e =>
    rw [hp] at hP
    cases hP
  | ok p =>
    cases hq : Program.ofParse
        ((CharStream.ofString Q).parse ((CharStream.ofString P).parse 0).nextId) with
    | error e =>
      rw [hq] at hQ
      cases hQ
    | ok q =>
      generalize hr : s.run 99 (.ofString P) = r at hrun
      obtain ⟨outcome, s₁⟩ := r
      cases outcome with
      | ok u =>
        have h : Reached [] [] s := .start fun _ => 0
        exact ⟨p, q, s₁, rfl, rfl, rfl, ((run_in_pieces h hp hq).2 99 s₁ hr).1⟩
      | unbuilt | failed | broken | exhausted => cases hrun

end ClassScript
