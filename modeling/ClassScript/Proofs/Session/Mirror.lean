/-
# Frames mirror scopes

Whenever a statement or an expression is executed, the local frames from the current one
outwards are instances of the scopes that were on the stack when the analysis came to it
(`Mirrors`): there are as many of them, each binds the names that its scope holds as
defined, and no names but those that the source declares in that scope. An expression with
a depth leads to the frame of the scope that declares its name, and the name of one without
a depth is in no scope (`LeadsTo`).

Key theorem: `frames_mirror_scopes`. This holds at every node of every run, in all sessions
that can be reached.
-/
import ClassScript.Proofs.Machine.Watch
import ClassScript.Proofs.Session.Reached

namespace ClassScript

open Lexical Scope

/-! ### Frames and scopes -/

/-- The frames from `φ` outwards are `frames` and the global one, and stand for the scopes. The class
whose superclass is looked at, `awaiting`, is in the innermost scope but not in its frame. -/
structure Mirrors (s : Store) (φ : Nat) (awaiting : Option String)
    (scopes : List (NameTable Readiness)) (declares : List (List String)) (frames : List Nat) :
    Prop where
  chain : s.chain φ = frames ++ [globalFrame]
  inner : globalFrame ∉ frames
  scopeCount : frames.length = scopes.length
  declareCount : frames.length = declares.length
  binds : ∀ (k ψ : Nat) (scope : NameTable Readiness), frames[k]? = some ψ →
    scopes[k]? = some scope → ∀ x, scope.find? x = some .defined →
    ¬ (k = 0 ∧ awaiting = some x) → (s.lookup ψ x).isSome
  only : ∀ (k ψ : Nat) (names : List String), frames[k]? = some ψ → declares[k]? = some names →
    ∀ x, (s.lookup ψ x).isSome → x ∈ names

/-- Where the reference `id` to the name `x` leads: by its depth to the frame of the nearest scope
that holds the name, in which the source declares it. Without a depth, no scope holds it. -/
def LeadsTo (m : Machine) (c : Context) (frames : List Nat) (id : Nat) (x : String) : Prop :=
  match m.depths.find? id with
  | some d => ∃ φ scope names, m.store.ancestor d m.frame = some φ ∧ frames[d]? = some φ ∧
      c.scopes[d]? = some scope ∧ scope.contains x = true ∧
      c.declares[d]? = some names ∧ x ∈ names ∧
      ∀ k < d, ∀ scope ∈ c.scopes[k]?, scope.contains x = false
  | none => ∀ scope ∈ c.scopes, scope.contains x = false

/-- The machine executes the node `n` in frames that mirror the scopes of the context `c`. -/
def Faithful (m : Machine) (c : Context) (n : Node) : Prop :=
  ∃ frames, Mirrors m.store m.frame c.awaiting c.scopes c.declares frames ∧
    ∀ e id x, n = .expr e → e.refers = some (id, x) → LeadsTo m c frames id x

/-- The machine executes the node `n` of one of the programs as the analysis saw it. Only a node
without any expression can stand in more than one place: then it is one of them. -/
def Mirrored (ps : List Program) (n : Node) (m : Machine) : Prop :=
  (∃ p ∈ ps, ∃ c, Visits p.body c n ∧ Faithful m c n) ∧
    (n.ids ≠ [] → ∀ p ∈ ps, ∀ c, Visits p.body c n → Faithful m c n)

variable {ps : List Program} {W : World} {m : Machine} {σ : State} {φ : Nat} {ρ : Env}
  {c : Context} {n : Node}

/-- The frames of a chain are reached step by step. -/
theorem Store.ancestor_of_chain (s : Store) : ∀ {k φ ψ : Nat}, (s.chain φ)[k]? = some ψ →
    s.ancestor k φ = some ψ
  | 0, φ, ψ, h => by
    rw [Store.chain] at h
    exact h
  | k + 1, φ, ψ, h => by
    rw [Store.chain, List.getElem?_cons_succ] at h
    rw [Store.ancestor]
    cases hp : s.parent? φ with
    | none => simp [hp] at h
    | some outer =>
      simp only [hp] at h
      by_cases hlt : outer < φ
      · rw [if_pos hlt] at h
        exact s.ancestor_of_chain h
      · rw [if_neg hlt] at h
        cases h

/-- **Frames that are instances of scopes mirror them.** -/
theorem mirrors_of_instances {s : Store} (h : StoreMatch W s σ) : ∀ {φ : Nat}
    {awaiting : Option String} {scopes : List (NameTable Readiness)} {declares : List (List String)},
    Instances W φ awaiting scopes declares → ∃ frames, Mirrors s φ awaiting scopes declares frames
  | _, _, [], [], hi => by
    obtain rfl : _ = globalFrame := hi
    refine ⟨[], ?_, by simp, rfl, rfl, by simp, by simp⟩
    rw [Store.chain_global]
    rfl
  | φ, awaiting, scope :: scopes, names :: declares, ⟨hi, outer, hlt, hparent, hrest⟩ => by
    obtain ⟨frames, hm⟩ := mirrors_of_instances h hrest
    have hne : φ ≠ globalFrame := fun hφ => by
      rw [hφ] at hlt
      exact absurd hlt (Nat.not_lt_zero _)
    refine ⟨φ :: frames, ?_, ?_, ?_, ?_, ?_, ?_⟩
    · rw [Store.chain, h.parent φ hi.inside, hparent]
      simp only [hlt, if_true, List.cons_append, hm.chain]
    · intro hmem
      rcases List.mem_cons.mp hmem with heq | hmem
      · exact hne heq.symm
      · exact hm.inner hmem
    · rw [List.length_cons, List.length_cons, hm.scopeCount]
    · rw [List.length_cons, List.length_cons, hm.declareCount]
    · intro k ψ scope' hψ hscope x hx haw
      cases k with
      | zero =>
        obtain rfl : φ = ψ := by simpa using hψ
        obtain rfl : scope = scope' := by simpa using hscope
        exact (h.bound φ hi.inside hne x).mp (hi.bound x hx fun ha => haw ⟨rfl, ha⟩)
      | succ k => exact hm.binds k ψ scope' hψ hscope x hx (by simp)
    · intro k ψ names' hψ hnames x hx
      cases k with
      | zero =>
        obtain rfl : φ = ψ := by simpa using hψ
        obtain rfl : names = names' := by simpa using hnames
        have hplaced := h.placed φ hi.inside hne x ((h.bound φ hi.inside hne x).mpr hx)
        obtain ⟨cell, hcell⟩ := Option.isSome_iff_exists.mp hplaced
        exact hi.declares ▸ (h.slot φ x cell hcell).declared
      | succ k => exact hm.only k ψ names' hψ hnames x hx

/-- A name of a scope, with the scopes before it. -/
theorem depthIn_eq_some {scopes : List (NameTable Readiness)} {x : String} {d : Nat}
    (h : depthIn scopes x = some d) : ∃ scope, scopes[d]? = some scope ∧ scope.contains x = true ∧
      ∀ k < d, ∀ scope ∈ scopes[k]?, scope.contains x = false := by
  obtain ⟨hlt, hx, hbefore⟩ := List.findIdx?_eq_some_iff_getElem.mp h
  refine ⟨scopes.get ⟨d, hlt⟩, List.getElem?_eq_getElem hlt, hx, fun k hk scope hs => ?_⟩
  have hk' : k < scopes.length := Nat.lt_trans hk hlt
  rw [List.getElem?_eq_getElem hk', Option.mem_some_iff] at hs
  subst hs
  simpa using hbefore k hk

/-- A reference leads to the frame of its scope. -/
theorem leadsTo_of_depth {frames : List Nat} {id : Nat} {x : String}
    (hm : Mirrors m.store m.frame c.awaiting c.scopes c.declares frames) (ht : Tidy c)
    (hid : m.depths.find? id = depthIn c.scopes x) : LeadsTo m c frames id x := by
  unfold LeadsTo
  rw [hid]
  cases hd : depthIn c.scopes x with
  | none => exact fun scope hs => by simpa using List.findIdx?_eq_none_iff.mp hd scope hs
  | some d =>
    obtain ⟨scope, hscope, hx, hbefore⟩ := depthIn_eq_some hd
    have hlt : d < c.scopes.length := (List.getElem?_eq_some_iff.mp hscope).1
    have hframe : d < frames.length := hm.scopeCount ▸ hlt
    have hdeclare : d < c.declares.length := hm.declareCount ▸ hframe
    have hφ := List.getElem?_eq_getElem hframe
    have hnames := List.getElem?_eq_getElem hdeclare
    refine ⟨frames[d], scope, c.declares[d], m.store.ancestor_of_chain ?_, hφ, hscope, hx, hnames,
      ?_, hbefore⟩
    · rw [hm.chain, List.getElem?_append_left hframe, hφ]
    · have hget := ht.declared.get hlt hdeclare
      rw [(List.getElem?_eq_some_iff.mp hscope).2.symm] at hx
      exact hget x hx

/-- **A node that is executed where the analysis came to it is executed faithfully.** -/
theorem faithful_of_at (hm : Match ps W m σ) (ha : At W m.frame ρ c n) : Faithful m c n := by
  obtain ⟨Δ, hacc, -⟩ := ha.accepted hm
  obtain ⟨frames, hmirrors⟩ := mirrors_of_instances hm.store ha.linked.instances
  refine ⟨frames, hmirrors, fun e id x he hr => ?_⟩
  subst he
  exact leadsTo_of_depth hmirrors hacc.tidy (ha.depth hm hr)

theorem mirrored_of_at (hapart : Apart ps) (hm : Match ps W m σ) (ha : At W m.frame ρ c n) :
    Mirrored ps n m := by
  have hfaithful := faithful_of_at hm ha
  obtain ⟨p, hp, hv⟩ := ha.visited
  have hnodup := (hm.built p hp).nodup
  rw [hm.texts] at hp
  refine ⟨⟨p, hp, c, hv, hfaithful⟩, fun hids q hq c' hv' => ?_⟩
  -- an identity of the node gives its program and its context away
  obtain ⟨id, hid⟩ := List.exists_mem_of_ne_nil _ hids
  have hidp : id ∈ Stmt.idsOf p.body := (Comes.ids hv hnodup).2 id hid
  have hidq : id ∈ Stmt.idsOf q.body :=
    (Comes.ids hv' (hm.built q (hm.texts ▸ hq)).nodup).2 id hid
  obtain rfl := hapart.unique hp hq hidp hidq
  obtain rfl := Comes.unique hv hv' hnodup hid
  exact hfaithful

/-! ### Watched runs -/

variable {alarm : Breach}

/-- A watched run agrees if the run does and the property holds before and after it. -/
theorem Lexical.Agree.watch {α β : Type} {xs : List String} {A : World → α → β → Prop}
    {P : Machine → Prop} {r : ClassScript.Run α} {y : Lexical.Answer β} (hP : P m)
    (h : Agree ps W φ xs A (r m) y)
    (hP' : ∀ W' m' σ', Grows φ xs W W' → Match ps W' m' σ' → m'.frame = φ → P m') :
    Agree ps W φ xs A (ClassScript.watch alarm P r m) y := by
  unfold ClassScript.watch
  rw [if_pos hP]
  generalize r m = x at h
  cases h with
  | done grows hm hframe hab =>
    dsimp only
    rw [if_pos (hP' _ _ _ grows hm hframe)]
    exact .done grows hm hframe hab
  | failed grows hm hframe =>
    dsimp only
    rw [if_pos (hP' _ _ _ grows hm hframe)]
    exact .failed grows hm hframe
  | exhausted => exact .exhausted

/-- **Watched evaluation agrees with lexical scoping, too:** there is no alarm, if the property holds
wherever a node is executed as the analysis came to it. A statement that declares nothing is executed
in a frame that has cells for names of its scope only. -/
theorem watched_agrees_exact {P : Node → Machine → Prop}
    (hP : ∀ {W : World} {m : Machine} {σ : State} {ρ : Env} {c : Context} {n : Node},
      Match ps W m σ → At W m.frame ρ c n →
      (∀ s, n = .stmt s → s.declares = none → Exact W m.frame c.scopes) → P n m)
    (alarm : Breach) (f : Nat) :
    EvalAgrees ps (watchedEval alarm P f) (Lexical.eval f) ∧
    CallAgrees ps (watchedCall alarm P f) (Lexical.call f) ∧
    ExecAgrees ps (watchedExec alarm P f) (Lexical.exec f) := by
  induction f with
  | zero => exact ⟨fun _ _ => .exhausted, fun _ _ _ => .exhausted, fun _ _ _ => .exhausted⟩
  | succ f ih =>
    obtain ⟨he, hc, hx⟩ := ih
    -- where a node starts it stands as the analysis saw it, and it still does where it ends
    refine ⟨?_, ?_, ?_⟩
    · intro W m σ ρ c e hm ha
      simp only [watchedEval]
      refine .watch (hP hm ha (by rintro _ ⟨⟩)) (exprStep_agrees he hc hm ha) fun W' m' σ' hg hm' hf => ?_
      exact hP hm' (hf ▸ ha.mono hg.toExtends) (by rintro _ ⟨⟩)
    · intro W m σ v v' vs vs' hm hv hvs
      simp only [watchedCall]
      exact callStep_agrees hx hm hv hvs
    · intro W m σ ρ c s hm ha hexact
      have hlt := ha.linked.instances.lt_size hm.store.nonempty
      simp only [watchedExec]
      refine .watch (hP hm ha fun _ _ _ => hexact) (stmtStep_agrees he hx f hm ha hexact)
        fun W' m' σ' hg hm' hf => hP hm' (hf ▸ ha.mono hg.toExtends) ?_
      rintro _ ⟨rfl⟩ hs
      rw [hs] at hg
      exact hf ▸ hexact.mono hlt hg

theorem watched_agrees_of {P : Node → Machine → Prop}
    (hP : ∀ {W : World} {m : Machine} {σ : State} {ρ : Env} {c : Context} {n : Node},
      Match ps W m σ → At W m.frame ρ c n → P n m) (alarm : Breach) (f : Nat) :
    EvalAgrees ps (watchedEval alarm P f) (Lexical.eval f) ∧
    CallAgrees ps (watchedCall alarm P f) (Lexical.call f) ∧
    ExecAgrees ps (watchedExec alarm P f) (Lexical.exec f) :=
  watched_agrees_exact (fun hm ha _ => hP hm ha) alarm f

theorem watched_agrees (hapart : Apart ps) (alarm : Breach) (f : Nat) :
    EvalAgrees ps (watchedEval alarm (Mirrored ps) f) (Lexical.eval f) ∧
    CallAgrees ps (watchedCall alarm (Mirrored ps) f) (Lexical.call f) ∧
    ExecAgrees ps (watchedExec alarm (Mirrored ps) f) (Lexical.exec f) :=
  watched_agrees_of (mirrored_of_at hapart) alarm f

theorem Lexical.Agree.unbroken {α β : Type} {xs : List String} {A : World → α → β → Prop}
    {x : ClassScript.Answer α} {y : Lexical.Answer β} (h : Agree ps W φ xs A x y) (b : Breach) :
    x ≠ .broken b := by
  cases h <;> simp

/-- A watched run without an alarm is the run itself. -/
theorem Below.eq_of_unbroken {α : Type} {r r' : Run α} (h : Below (.broken alarm) r r')
    (hm : ∀ b, r m ≠ .broken b) : r m = r' m ∧ ∀ b, r' m ≠ .broken b := by
  rcases h m with halarm | heq
  · exact absurd halarm (hm alarm)
  · exact ⟨heq, heq ▸ hm⟩

/-! ### Sessions -/

variable {held : List Value} {s : Session}

/-- **Frames mirror scopes,** at every node of every run. In a session that can be reached, a run of
any text and a call of any global name, with values that the host holds, are what they are when
all nodes are watched: no alarm is ever raised. -/
theorem frames_mirror_scopes (h : Reached ps held s) (alarm : Breach) (f : Nat) :
    (∀ (text : CharStream) p, Program.ofParse (text.parse s.nextId) = .ok p →
      let m := { s.machine with depths := s.machine.depths.merge p.depths }
      watchedAll alarm (Mirrored (p :: ps)) f p.body m = execAll f p.body m ∧
        ∀ b, execAll f p.body m ≠ .broken b) ∧
    ∀ x callee args, s.machine.global? x = some callee → (∀ a ∈ args, a ∈ held) →
      watchedCall alarm (Mirrored ps) f callee args s.machine = call f callee args s.machine ∧
        ∀ b, call f callee args s.machine ≠ .broken b := by
  obtain ⟨W, σ, ht, hheld⟩ := h.tracked
  have hbelow := fun P => watched_below alarm P f
  refine ⟨fun text p hp => ?_, fun x callee args hcallee hargs => ?_⟩
  · have hagree := ht.sequence hp (watched_agrees (ht.apart_new hp) alarm f).2.2
    exact (sequence_below (hbelow _).2.2 p.body).eq_of_unbroken hagree.unbroken
  · obtain ⟨callee', halike⟩ := ht.global hcallee
    obtain ⟨args', hargs'⟩ := alike_list fun a ha => hheld a (hargs a ha)
    have hagree := (watched_agrees ht.apart alarm f).2.1 ht.holds halike hargs'
    exact ((hbelow _).2.1 callee args).eq_of_unbroken hagree.unbroken

/-- A closure escapes from a block that ends with an error, and the next text calls it. -/
theorem frames_mirror_scopes_escaped :
    let text := CharStream.ofString "var g; { var a = 1; fun f() { return a; } g = f; nil(); }"
    let s := ((Session.initial fun _ => 0).run 99 text).2
    let ps := (Session.initial fun _ => 0).ended 99 text []
    ∃ p, Program.ofParse ((CharStream.ofString "print g();").parse s.nextId) = .ok p ∧
      let m := { s.machine with depths := s.machine.depths.merge p.depths }
      watchedAll .pastGlobals (Mirrored (p :: ps)) 99 p.body m = execAll 99 p.body m ∧
        ∀ b, execAll 99 p.body m ≠ .broken b := by
  intro text s ps
  have h : Reached ps [] s := .step (.start fun _ => 0) (.run 99 text)
  have hbuilt : (Program.ofParse
      ((CharStream.ofString "print g();").parse s.nextId)).toOption.isSome = true := by
    decide +kernel
  cases hp : Program.ofParse ((CharStream.ofString "print g();").parse s.nextId) with
  | error e =>
    rw [hp] at hbuilt
    cases hbuilt
  | ok p => exact ⟨p, rfl, (frames_mirror_scopes h .pastGlobals 99).1 _ p hp⟩

end ClassScript
