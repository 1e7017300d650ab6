/-
# Identities never collide

Texts that are parsed one after the other with one counter (`parseInTurn`) share no
identity, whether they have errors or not: each parse gives out a stretch of identities,
and those of its trees are different and lie in this stretch (`CharStream.parse_fresh`).

So the tables of depths of all programs of a session fit into one table. Whenever a node is
executed, it is a node of one of the programs, and each expression of each of them is looked
up as the analysis of its own program has recorded it (`Resolved`).

Key theorem: `identities_apart`.
-/
import ClassScript.Proofs.Session.Mirror
import ClassScript.Proofs.Syntax.Later

namespace ClassScript

open Lexical Scope

/-! ### Parsing in turn -/

/-- Parses texts one after the other. Each parse goes with the counter before it. -/
def parseInTurn (firstId : Nat) : List CharStream → List (Nat × Parse)
  | [] => []
  | text :: texts =>
    let p := text.parse firstId
    (firstId, p) :: parseInTurn p.nextId texts

/-- The identities of the trees of some parses. -/
def identities (ps : List (Nat × Parse)) : List Nat := ps.flatMap fun p => Stmt.idsOf p.2.trees

/-- **Texts that are parsed in turn share no identity.** -/
theorem parseInTurn_fresh : ∀ (firstId : Nat) (texts : List CharStream),
    ∃ nextId, Fresh firstId nextId (identities (parseInTurn firstId texts))
  | firstId, [] => ⟨firstId, .nil (Nat.le_refl _)⟩
  | firstId, text :: texts => by
    obtain ⟨nextId, hrest⟩ := parseInTurn_fresh (text.parse firstId).nextId texts
    exact ⟨nextId, (text.parse_fresh firstId).append hrest⟩

/-- The identities of each parse lie between the counter before and after it. -/
theorem mem_parseInTurn : ∀ {firstId : Nat} {texts : List CharStream} {p : Nat × Parse},
    p ∈ parseInTurn firstId texts → Fresh p.1 p.2.nextId (Stmt.idsOf p.2.trees)
  | firstId, text :: texts, p, h => by
    rcases List.mem_cons.mp h with rfl | h
    · exact text.parse_fresh firstId
    · exact mem_parseInTurn h

/-! ### Depths in a session -/

/-- The machine finds the depth of each expression of the programs as the analysis of its own
program has recorded it. -/
def AsRecorded (ps : List Program) (m : Machine) : Prop :=
  ∀ p ∈ ps, analyze p.body = .ok p.depths ∧
    ∀ id ∈ Stmt.idsOf p.body, m.depths.find? id = p.depths.find? id

/-- The machine executes a node of one of the programs, and all depths are found as recorded. -/
def Resolved (ps : List Program) (n : Node) (m : Machine) : Prop :=
  (∃ p ∈ ps, ∀ id ∈ n.ids, id ∈ Stmt.idsOf p.body) ∧ AsRecorded ps m

variable {ps : List Program} {held : List Value} {s : Session} {W : World} {m : Machine} {σ : State}
  {ρ : Env} {c : Context} {n : Node}

theorem asRecorded_of_match (hm : Match ps W m σ) : AsRecorded ps m := by
  intro p hp
  rw [← hm.texts] at hp
  exact ⟨(hm.built p hp).analyzed, hm.depths.own p hp⟩

theorem resolved_of_at (hm : Match ps W m σ) (ha : At W m.frame ρ c n) : Resolved ps n m := by
  obtain ⟨p, hp, hv⟩ := ha.visited
  have hids := (Comes.ids hv (hm.built p hp).nodup).2
  exact ⟨⟨p, hm.texts ▸ hp, hids⟩, asRecorded_of_match hm⟩

/-- **Identities never collide, and depths are never mixed up.** The identities of all trees of
texts that are parsed in turn are different, and each lies between the counter before and after its
own parse. In a session that can be reached, the depths of all programs are found as recorded: while
nothing runs, and at every node of a run of any text and of a call of any global name, with no
alarm ever raised. -/
theorem identities_apart :
    (∀ (firstId : Nat) (texts : List CharStream),
      (identities (parseInTurn firstId texts)).Nodup ∧
      ∀ p ∈ parseInTurn firstId texts, ∀ id ∈ Stmt.idsOf p.2.trees, p.1 ≤ id ∧ id < p.2.nextId) ∧
    ∀ (ps : List Program) (held : List Value) (s : Session), Reached ps held s →
      AsRecorded ps s.machine ∧
      (∀ (alarm : Breach) (f : Nat) (text : CharStream) p,
        Program.ofParse (text.parse s.nextId) = .ok p →
        let m := { s.machine with depths := s.machine.depths.merge p.depths }
        watchedAll alarm (Resolved (p :: ps)) f p.body m = execAll f p.body m ∧
          ∀ b, execAll f p.body m ≠ .broken b) ∧
      ∀ (alarm : Breach) (f : Nat) x callee args, s.machine.global? x = some callee →
        (∀ a ∈ args, a ∈ held) →
        watchedCall alarm (Resolved ps) f callee args s.machine = call f callee args s.machine ∧
          ∀ b, call f callee args s.machine ≠ .broken b := by
  refine ⟨fun firstId texts => ?_, fun ps held s h => ?_⟩
  · obtain ⟨nextId, hfresh⟩ := parseInTurn_fresh firstId texts
    exact ⟨hfresh.nodup, fun p hp => (mem_parseInTurn hp).mem⟩
  obtain ⟨W, σ, ht, hheld⟩ := h.tracked
  have hbelow := fun alarm P f => watched_below alarm P f
  refine ⟨asRecorded_of_match ht.holds, fun alarm f text p hp => ?_,
    fun alarm f x callee args hcallee hargs => ?_⟩
  · have hagree := ht.sequence hp (watched_agrees_of resolved_of_at alarm f).2.2
    exact (sequence_below (hbelow alarm _ f).2.2 p.body).eq_of_unbroken hagree.unbroken
  · obtain ⟨callee', halike⟩ := ht.global hcallee
    obtain ⟨args', hargs'⟩ := alike_list fun a ha => hheld a (hargs a ha)
    have hagree := (watched_agrees_of resolved_of_at alarm f).2.1 ht.holds halike hargs'
    exact ((hbelow alarm _ f).2.1 callee args).eq_of_unbroken hagree.unbroken

/-- A function of a text with a scope is called by the host behind a text with an error. -/
theorem identities_apart_failed_text :
    let text := CharStream.ofString "var g; { var a = 1; fun f() { return a; } g = f; }"
    let s := ((Session.initial fun _ => 0).run 99 text).2
    let s' := (s.run 99 (CharStream.ofString "print 1 +; a;")).2
    let ps := s.ended 99 (CharStream.ofString "print 1 +; a;")
      ((Session.initial fun _ => 0).ended 99 text [])
    ∃ callee, s'.machine.global? "g" = some callee ∧
      (s.nextId < s'.nextId ∧ ps.length = 1 ∧ AsRecorded ps s'.machine) ∧
      watchedCall .pastGlobals (Resolved ps) 99 callee [] s'.machine =
        call 99 callee [] s'.machine := by
  intro text s s' ps
  have h : Reached ps [] s' :=
    .step (.step (.start fun _ => 0) (.run 99 text)) (.run 99 _)
  have hcallee : (s'.machine.global? "g").isSome = true := by decide +kernel
  have hnext : s.nextId < s'.nextId := by decide +kernel
  have hlength : ps.length = 1 := by decide +kernel
  obtain ⟨callee, hcallee⟩ := Option.isSome_iff_exists.mp hcallee
  obtain ⟨hrecorded, -, hcall⟩ := identities_apart.2 ps [] s' h
  exact ⟨callee, hcallee, ⟨hnext, hlength, hrecorded⟩,
    (hcall .pastGlobals 99 "g" callee [] hcallee (by simp)).1⟩

end ClassScript
