/-
# Sessions under lexical scoping

A session is tracked by a state of lexical scoping (`Tracks`) if its machine, which is at
rest, matches the state, and the identities of all programs that were run are different
and lie below the next one. So the depths of a new program touch none of those that the
machine has: the machine that is about to run it matches, too (`Tracks.program`), and the
run of the program agrees with lexical scoping (`Tracks.execute`, `Tracks.call`).

Key theorem: `Tracks.run`, from before a text to behind it.
-/
import ClassScript.Proofs.Lexical.Statements
import ClassScript.Proofs.Syntax.Forward

namespace ClassScript

open Lexical Scope

variable {ps : List Program} {p : Program} {s : Session} {W W' : World} {σ σ' : State}
  {m : Machine} {text : CharStream} {n : Nat}

/-! ### Machines before and after a run -/

/-- The world in which nothing has run yet. -/
def Lexical.World.initial : World where
  texts := []
  size := 1
  parent _ := none
  declares _ := []
  bound _ _ := False
  place _ _ := none

/-- A new machine has the functions of the language as its only names. -/
theorem match_initial (clock : Nat → Float) :
    Match [] .initial (Machine.initial clock) (State.initial clock) := by
  have hnatives : TablesAlike (Alike .initial)
      (NameTable.ofList (Native.all.map fun n => (n.name, (Value.native n : Value))))
      (NameTable.ofList (Native.all.map fun n => (n.name, (Value.native n : Value Env)))) := by
    refine .ofList (List.forall₂_map_left_iff.mpr (List.forall₂_map_right_iff.mpr ?_))
    exact List.forall₂_same.mpr fun n _ => ⟨rfl, .native n⟩
  have hlookup : ∀ φ x, φ ≠ globalFrame → (Machine.initial clock).store.lookup φ x = none := by
    intro φ x hφ
    unfold Machine.initial
    dsimp only
    rw [Store.lookup_newFrame]
    exact (if_neg hφ).trans rfl
  refine ⟨rfl, by simp [World.initial], ⟨by simp [World.initial], fun id _ => ?_⟩, ?_, rfl, rfl, rfl,
    rfl, rfl⟩
  · simp [Machine.initial, Depths.find?]
  · refine ⟨rfl, Nat.zero_lt_one, fun φ hφ => ?_, rfl, fun φ hφ hne => ?_, fun φ hφ hne => ?_, ?_, ?_,
      fun x => ?_, rfl, fun i x => ?_, fun φ _ hne v hv => ?_, fun φ _ hne v hv => ?_, rfl⟩
    · obtain rfl : φ = 0 := Nat.lt_one_iff.mp hφ
      rfl
    · exact absurd (Nat.lt_one_iff.mp hφ) hne
    · exact absurd (Nat.lt_one_iff.mp hφ) hne
    · exact fun φ x cell h => by cases h
    · exact fun φ ψ x y cell h => by cases h
    · exact hnatives x
    · exact .none
    · rw [hlookup φ _ hne] at hv
      cases hv
    · rw [hlookup φ _ hne] at hv
      cases hv

/-- A machine at rest matches a state without calls. -/
theorem Lexical.Match.atRest (h : Match ps W m σ) : Match ps W m.atRest { σ with calls := 0 } :=
  ⟨h.texts, h.built, h.depths, h.store.congr rfl rfl rfl rfl, h.sink, rfl, h.maxCalls, h.clock,
    h.readings⟩

/-- A machine with another sink and another limit to calls. -/
theorem Lexical.Match.withLimits (h : Match ps W m σ) (sink : Sink) (n : Nat) :
    Match ps W { m with sink := sink, maxCalls := n } { σ with sink := sink, maxCalls := n } :=
  ⟨h.texts, h.built, h.depths, h.store.congr rfl rfl rfl rfl, rfl, h.calls, rfl, h.clock, h.readings⟩

/-! ### Programs that are built from texts -/

/-- A well-formed program with identities from `firstId` on that lie below `nextId`. -/
structure Program.New (p : Program) (firstId nextId : Nat) : Prop where
  built : p.Built
  fresh : Fresh firstId nextId (Stmt.idsOf p.body)

theorem Program.ofTrees_new {firstId : Nat} {body : List Stmt} (hproper : Stmt.ProperAll body)
    (hfresh : Fresh firstId n (Stmt.idsOf body)) (h : Program.ofTrees body = .ok p) :
    p.New firstId n := by
  unfold Program.ofTrees at h
  cases hd : analyze body with
  | error errors =>
    rw [hd] at h
    cases h
  | ok depths =>
    rw [hd] at h
    cases h
    exact ⟨⟨hd, hproper, hfresh.nodup⟩, hfresh⟩

theorem Program.ofParse_new {firstId : Nat} (h : Program.ofParse (text.parse firstId) = .ok p) :
    p.New firstId (text.parse firstId).nextId := by
  unfold Program.ofParse at h
  cases hbody : (text.parse firstId).program with
  | error errors =>
    rw [hbody] at h
    cases h
  | ok body =>
    rw [hbody] at h
    obtain ⟨hproper, hfresh⟩ := CharStream.parse_proper hbody
    exact ofTrees_new hproper hfresh h

/-- **A program that is built from a text is well-formed, and its identities are new.** -/
theorem Program.ofParse_built {firstId : Nat}
    (h : Program.ofParse (text.parse firstId) = .ok p) :
    p.Built ∧ Fresh firstId (text.parse firstId).nextId (Stmt.idsOf p.body) :=
  ⟨(ofParse_new h).built, (ofParse_new h).fresh⟩

/-- The depths of a program with new identities are added to those of the others. -/
theorem Lexical.Records.merge {Δ : Depths} (h : Records ps Δ) (hp : p.Built)
    (hnew : ∀ q ∈ ps, (Stmt.idsOf q.body).Disjoint (Stmt.idsOf p.body)) :
    Records (p :: ps) (Δ.merge p.depths) := by
  refine ⟨fun q hq id hid => ?_, fun id hid => ?_⟩
  · rw [Depths.find?_merge]
    rcases List.mem_cons.mp hq with rfl | hq
    · rw [h.other id fun q' hq' hmem => hnew q' hq' hmem hid]
      exact Option.or_none
    · rw [depths_own hp fun hmem => hnew q hq hid hmem, h.own q hq id hid]
      exact Option.none_or
  · rw [Depths.find?_merge, depths_own hp (hid p (.head _)),
      h.other id fun q hq => hid q (.tail _ hq)]
    rfl

/-! ### Sessions that are tracked -/

/-- Of lists that have no members in common, one at most has a given member. -/
theorem eq_of_mem_disjoint {α β : Type} {members : α → List β} {as : List α} {a a' : α} {b : β}
    (h : as.Pairwise fun a a' => (members a).Disjoint (members a')) (ha : a ∈ as) (ha' : a' ∈ as)
    (hb : b ∈ members a) (hb' : b ∈ members a') : a = a' := by
  by_contra hne
  have : Std.Symm fun a a' => (members a).Disjoint (members a') :=
    ⟨fun _ _ hd => List.disjoint_symm hd⟩
  exact h.forall ha ha' hne hb hb'

/-- Programs that have identities of their own. -/
def Apart (ps : List Program) : Prop :=
  ps.Pairwise fun p q => (Stmt.idsOf p.body).Disjoint (Stmt.idsOf q.body)

/-- Of programs with identities of their own, one at most has a given identity. -/
theorem Apart.unique (h : Apart ps) {p q : Program} {id : Nat} (hp : p ∈ ps) (hq : q ∈ ps)
    (hidp : id ∈ Stmt.idsOf p.body) (hidq : id ∈ Stmt.idsOf q.body) : p = q :=
  eq_of_mem_disjoint h hp hq hidp hidq

/-- The session has run the programs `ps`, and its machine matches the state `σ`. -/
structure Tracks (ps : List Program) (s : Session) (W : World) (σ : State) : Prop where
  holds : Match ps W s.machine σ
  frame : s.machine.frame = globalFrame
  old : ∀ p ∈ ps, ∀ id ∈ Stmt.idsOf p.body, id < s.nextId
  apart : Apart ps

namespace Tracks

theorem initial (clock : Nat → Float) :
    Tracks [] (Session.initial clock) .initial (State.initial clock) :=
  ⟨match_initial clock, rfl, by simp, .nil⟩

/-- The identities of a new program are none of the old ones. -/
theorem disjoint_new (h : Tracks ps s W σ) (hp : p.New s.nextId n) :
    ∀ q ∈ ps, (Stmt.idsOf q.body).Disjoint (Stmt.idsOf p.body) := by
  intro q hq id hid hid'
  have hlt := h.old q hq id hid
  have hle := (hp.fresh.mem id hid').1
  omega

theorem apart_cons (h : Tracks ps s W σ) (hp : p.New s.nextId n) : Apart (p :: ps) :=
  List.pairwise_cons.mpr ⟨fun q hq => List.disjoint_symm (h.disjoint_new hp q hq), h.apart⟩

/-- **A machine that is about to run a new program matches the state.** -/
theorem match_new (h : Tracks ps s W σ) (hp : p.New s.nextId n) :
    Match (p :: ps) { W with texts := p :: W.texts }
      { s.machine with depths := s.machine.depths.merge p.depths } σ := by
  have hm := h.holds
  have hrecords := (hm.texts ▸ hm.depths).merge hp.built (h.disjoint_new hp)
  refine ⟨congrArg (p :: ·) hm.texts, fun q hq => ?_, ?_, hm.store.text p, hm.sink, hm.calls,
    hm.maxCalls, hm.clock, hm.readings⟩
  · rcases List.mem_cons.mp hq with rfl | hq
    · exact hp.built
    · exact hm.built q hq
  · show Records (p :: W.texts) _
    rw [hm.texts]
    exact hrecords

/-- **A program runs as under lexical scoping,** if its statements do. -/
theorem sequence_new {exec : Stmt → Run Flow}
    {exec' : Bool → Env → Stmt → Lexical.Run Lexical.Flow} (h : Tracks ps s W σ)
    (hp : p.New s.nextId n) (hx : ExecAgrees (p :: ps) exec exec') :
    Agree (p :: ps) { W with texts := p :: W.texts } globalFrame (declaredBy p.body)
      (FlowsAlike fun _ _ => True)
      (Run.sequence exec p.body { s.machine with depths := s.machine.depths.merge p.depths })
      (Lexical.Run.sequence (exec' false) .empty p.body σ) := by
  have hat : At { W with texts := p :: W.texts } s.machine.frame .empty {} (.stmts p.body) := by
    refine ⟨⟨p, .head _, .refl⟩, h.frame, fun x => ?_⟩
    rw [NameTable.find?_empty]
    rfl
  have hagree := sequence_agrees hx (h.match_new hp) hat fun scope hs => by cases hs
  rw [h.frame] at hagree
  exact hagree

theorem execute_new (h : Tracks ps s W σ) (hp : p.New s.nextId n) (f : Nat) :
    Agree (p :: ps) { W with texts := p :: W.texts } globalFrame (declaredBy p.body)
      (fun _ _ _ => True) (s.machine.execute f p) (Lexical.execute f p.body σ) := by
  have hagree := h.sequence_new hp (all_agree f).2.2
  unfold Machine.execute Lexical.execute execAll
  generalize Run.sequence (exec f) p.body _ = x at hagree
  generalize Lexical.Run.sequence _ _ p.body σ = y at hagree
  cases hagree with
  | done grows hm _ _ => exact .done grows hm.atRest rfl trivial
  | failed grows hm _ => exact .failed grows hm.atRest rfl
  | exhausted => exact .exhausted

/-! A text that is built is a new program. -/

theorem apart_new (h : Tracks ps s W σ) (hp : Program.ofParse (text.parse s.nextId) = .ok p) :
    Apart (p :: ps) :=
  h.apart_cons (Program.ofParse_new hp)

theorem program (h : Tracks ps s W σ) (hp : Program.ofParse (text.parse s.nextId) = .ok p) :
    Match (p :: ps) { W with texts := p :: W.texts }
      { s.machine with depths := s.machine.depths.merge p.depths } σ :=
  h.match_new (Program.ofParse_new hp)

theorem sequence {exec : Stmt → Run Flow} {exec' : Bool → Env → Stmt → Lexical.Run Lexical.Flow}
    (h : Tracks ps s W σ) (hp : Program.ofParse (text.parse s.nextId) = .ok p)
    (hx : ExecAgrees (p :: ps) exec exec') :
    Agree (p :: ps) { W with texts := p :: W.texts } globalFrame (declaredBy p.body)
      (FlowsAlike fun _ _ => True)
      (Run.sequence exec p.body { s.machine with depths := s.machine.depths.merge p.depths })
      (Lexical.Run.sequence (exec' false) .empty p.body σ) :=
  h.sequence_new (Program.ofParse_new hp) hx

theorem execute (h : Tracks ps s W σ) (hp : Program.ofParse (text.parse s.nextId) = .ok p)
    (f : Nat) :
    Agree (p :: ps) { W with texts := p :: W.texts } globalFrame (declaredBy p.body)
      (fun _ _ _ => True) (s.machine.execute f p) (Lexical.execute f p.body σ) :=
  h.execute_new (Program.ofParse_new hp) f

/-- **A value is called as under lexical scoping.** -/
theorem call (h : Tracks ps s W σ) (f : Nat) {v : Value} {v' : Value Env} {vs : List Value}
    {vs' : List (Value Env)} (hv : Alike W v v') (hvs : List.Forall₂ (Alike W) vs vs') :
    Agree ps W globalFrame [] Alike (ClassScript.call f v vs s.machine)
      (Lexical.call f v' vs' σ) := by
  have hagree := (all_agree f).2.1 h.holds hv hvs
  rw [h.frame] at hagree
  exact hagree

/-! ### From session to session -/

/-- The same programs, and another machine. -/
theorem move (h : Tracks ps s W σ) (hm : Match ps W' m σ') (hframe : m.frame = globalFrame)
    (hn : s.nextId ≤ n) : Tracks ps ⟨m, n⟩ W' σ' :=
  ⟨hm, hframe, fun p hp id hid => Nat.lt_of_lt_of_le (h.old p hp id hid) hn, h.apart⟩

/-- One program more, and another machine. -/
theorem ran_new (h : Tracks ps s W σ) (hp : p.New s.nextId n) (hm : Match (p :: ps) W' m σ')
    (hframe : m.frame = globalFrame) : Tracks (p :: ps) ⟨m, n⟩ W' σ' := by
  refine ⟨hm, hframe, fun q hq id hid => ?_, h.apart_cons hp⟩
  rcases List.mem_cons.mp hq with rfl | hq
  · exact (hp.fresh.mem id hid).2
  · exact Nat.lt_of_lt_of_le (h.old q hq id hid) hp.fresh.le

theorem ran (h : Tracks ps s W σ) (hp : Program.ofParse (text.parse s.nextId) = .ok p)
    (hm : Match (p :: ps) W' m σ') (hframe : m.frame = globalFrame) :
    Tracks (p :: ps) ⟨m, (text.parse s.nextId).nextId⟩ W' σ' :=
  h.ran_new (Program.ofParse_new hp) hm hframe

end Tracks

/-- The programs that were run to an end, when the text is run, too. -/
def Session.ended (f : Nat) (s : Session) (text : CharStream) (ps : List Program) : List Program :=
  match Program.ofParse (text.parse s.nextId), (s.run f text).1 with
  | .ok p, .ok _ => p :: ps
  | .ok p, .failed _ => p :: ps
  | _, _ => ps

/-- Outcomes of a text, and the sessions behind it. -/
structure RunsAlike (ps : List Program) (W : World) (x : Outcome Unit × Session)
    (y : Option (Outcome Unit) × Lexical.Session) : Prop where
  outcome : y.1 = some x.1
  unbroken : ∀ b, x.1 ≠ .broken b
  nextId : y.2.nextId = x.2.nextId
  tracks : ∃ W', Extends W W' ∧ Tracks ps x.2 W' y.2.state

/-- **A text is run as under lexical scoping,** and the sessions behind it are alike again. -/
theorem Tracks.run (h : Tracks ps s W σ) (f : Nat) (text : CharStream) :
    RunsAlike (s.ended f text ps) W (s.run f text)
      (Lexical.Session.run f ⟨σ, s.nextId⟩ text) := by
  have hle : s.nextId ≤ (text.parse s.nextId).nextId := firstId_le_nextId _ _
  unfold Session.ended Session.run Lexical.Session.run
  dsimp only
  cases hp : Program.ofParse (text.parse s.nextId) with
  | error e =>
    exact ⟨rfl, by simp, rfl, W, .refl W, h.move h.holds h.frame hle⟩
  | ok p =>
    have hagree := h.execute hp f
    have hext := Extends.text W p
    unfold Session.execute
    dsimp only
    generalize s.machine.execute f p = x at hagree
    generalize Lexical.execute f p.body σ = y at hagree
    cases hagree with
    | done grows hm hframe _ =>
      exact ⟨rfl, by simp [Session.conclude], rfl, _, hext.trans grows.toExtends, h.ran hp hm hframe⟩
    | failed grows hm hframe =>
      exact ⟨rfl, by simp [Session.conclude], rfl, _, hext.trans grows.toExtends, h.ran hp hm hframe⟩
    | exhausted =>
      exact ⟨rfl, by simp [Session.conclude], rfl, W, .refl W, h.move h.holds h.frame hle⟩

end ClassScript
