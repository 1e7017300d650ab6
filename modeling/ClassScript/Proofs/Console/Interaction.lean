/-
# The programs of an interactive session

A session begins with the command line, which may run a script, and goes on line by line. `Sources`
are the texts that were built on the way, each with the program made of it, the last one first.
Their programs lie in their texts and have different identities, and the machine matches a state of
lexical scoping with no other programs than these (`Repl.Sourced`). So what a program fails at comes
from exactly one of the texts, and lies in it.

Key definitions: `Source`, `Repl.source?`, `Repl.Attends`.
Key theorems: `Repl.Attends.sourced`, `Repl.Sourced.origin`.
-/
import ClassScript.Console.Command
import ClassScript.Proofs.Console.Typed
import ClassScript.Proofs.Machine.Culprit
import ClassScript.Proofs.Session.Mirror
import ClassScript.Proofs.Syntax.Placement

namespace ClassScript

open Lexical Scope

/-! ### Programs made of texts -/

/-- A text as it is read to report errors, and the program that was made of it. -/
structure Source where
  text : Except ReadFailure (List Char)
  program : Program

/-- The program has the node in it that is executed. -/
def Source.Holds (o : Source) (n : Activation) : Prop := ∃ c, Visits o.program.body c n.node

/-- The text was read to its end, and the nodes of the program lie in it. -/
def Source.Placed (o : Source) : Prop :=
  ∃ cs, o.text = .ok cs ∧ ∀ s ∈ o.program.body, LiesIn cs.length (.stmt s)

/-- What is executed stands in the text. -/
theorem Source.Placed.endsBy {o : Source} {a : Activation} (h : o.Placed) (ha : o.Holds a) :
    ∃ cs, o.text = .ok cs ∧ a.place.EndsBy cs.length := by
  obtain ⟨cs, htext, hbody⟩ := h
  obtain ⟨c, hv⟩ := ha
  have hlies := LiesIn.stmts hbody
  refine ⟨cs, htext, ?_⟩
  cases a with
  | eval e => exact hlies {} _ hv _ rfl
  | exec s =>
    cases s with
    | classDecl span name parent methods =>
      cases parent with
      | none => exact hlies {} _ hv _ rfl
      | some u =>
        -- the error about a superclass stands where its name does
        have hparent : Visits _ (c.superclass name u) (.expr u.expr) := hv.tail (.head _)
        exact hlies {} _ hparent _ rfl
    | _ => exact hlies {} _ hv _ rfl

theorem Program.ofTrees_body {body : List Stmt} {p : Program} (h : Program.ofTrees body = .ok p) :
    p.body = body := by
  unfold Program.ofTrees at h
  split at h <;> cases h
  rfl

/-- What a script is built to, if it is. -/
def Script.source? (firstId : Nat) (s : Script) : Option Source :=
  match s.contents with
  | .error _ => none
  | .ok stream => (Program.ofParse (stream.parse firstId)).toOption.map fun p => ⟨stream.text, p⟩

theorem Script.placed {stream : CharStream} {firstId : Nat} {p : Program}
    (h : Program.ofParse (stream.parse firstId) = .ok p) : Source.Placed ⟨stream.text, p⟩ := by
  unfold Program.ofParse at h
  cases hbody : (stream.parse firstId).program with
  | error errors =>
    rw [hbody] at h
    cases h
  | ok body =>
    rw [hbody] at h
    obtain ⟨cs, rfl⟩ := program_read hbody
    refine ⟨cs, CharStream.text_ofList cs, ?_⟩
    rw [Program.ofTrees_body h]
    exact program_liesIn hbody

namespace Repl

/-- Builds an input. -/
def build (firstId : Nat) (input : String) : Except BuildError Program :=
  match ((CharStream.ofString input).parse firstId).program with
  | .ok body => Program.ofTrees (echoLast body)
  | .error errors => .error (.parsing errors)

/-- What is built and run on a line, if anything is. -/
def source? (r : Repl) (line : InputLine) : Option Source :=
  (r.whole? line).bind fun input =>
    (build r.session.nextId input).toOption.map fun p => ⟨.ok input.toList, p⟩

/-- The loop has been begun by a command line and has taken some lines, and these texts were built
on the way, the last one first. -/
inductive Attends (f : Nat) (clock : Nat → Float) : List Source → Repl → Prop
  | launch {c : Command} {look : String → Entry} {r : Repl} :
      (c.launch f (.initial clock) look).repl = some r →
      Attends f clock ((c.script? look).bind (Script.source? 0)).toList r
  | line {sources : List Source} {r r' : Repl} {line : InputLine} :
      Attends f clock sources r → (r.feed f line).2 = some r' →
      Attends f clock ((r.source? line).toList ++ sources) r'

/-! ### Programs of inputs -/

theorem idsOf_echoLast : ∀ body : List Stmt, Stmt.idsOf (echoLast body) = Stmt.idsOf body
  | [] => rfl
  | [s] => by cases s <;> rfl
  | s :: t :: ss => by
    rw [echoLast, Stmt.idsOf, idsOf_echoLast (t :: ss)]
    rfl

theorem properAll_echoLast : ∀ {body : List Stmt}, Stmt.ProperAll body →
    Stmt.ProperAll (echoLast body)
  | [], h => h
  | [s], h => by cases s <;> exact h
  | s :: t :: ss, h => by
    rw [echoLast]
    exact ⟨h.1, properAll_echoLast h.2⟩

theorem liesIn_echoLast {n : Nat} : ∀ {body : List Stmt}, (∀ s ∈ body, LiesIn n (.stmt s)) →
    ∀ s ∈ echoLast body, LiesIn n (.stmt s)
  | [], h => h
  | [s], h => by
    cases s with
    | expression span e =>
      have hs := h _ (.head _)
      have he : LiesIn n (.expr e) := fun c x hx => hs c x (.head (.head _) hx)
      refine List.forall_mem_singleton.mpr (.of ?_ fun c => .cons he .nil)
      rintro _ ⟨⟩
      exact hs.stmtSpan
    | _ => exact h
  | s :: t :: ss, h => by
    rw [echoLast]
    exact List.forall_mem_cons.mpr ⟨h s (.head _), liesIn_echoLast fun s hs => h s (.tail _ hs)⟩

/-- The program of an input is well-formed, and its identities are new. -/
theorem build_new {firstId : Nat} {input : String} {p : Program}
    (h : build firstId input = .ok p) :
    p.New firstId ((CharStream.ofString input).parse firstId).nextId := by
  unfold build at h
  cases hbody : ((CharStream.ofString input).parse firstId).program with
  | error errors =>
    rw [hbody] at h
    cases h
  | ok body =>
    obtain ⟨hproper, hfresh⟩ := CharStream.parse_proper hbody
    rw [← idsOf_echoLast] at hfresh
    rw [hbody] at h
    exact Program.ofTrees_new (properAll_echoLast hproper) hfresh h

theorem build_placed {firstId : Nat} {input : String} {p : Program}
    (h : build firstId input = .ok p) : Source.Placed ⟨.ok input.toList, p⟩ := by
  unfold build at h
  cases hbody : ((CharStream.ofString input).parse firstId).program with
  | error errors =>
    rw [hbody] at h
    cases h
  | ok body =>
    rw [hbody] at h
    refine ⟨_, rfl, ?_⟩
    rw [Program.ofTrees_body h]
    exact liesIn_echoLast (program_liesIn hbody)

/-- Only an input that is built is run. What it wrote is shown in front of how it ended. -/
theorem runInput_eq (f : Nat) (s : Session) (input : String) :
    runInput f s input =
      let s' := { s with nextId := ((CharStream.ofString input).parse s.nextId).nextId }
      match build s.nextId input with
      | .error e => (Complaint.report (.ok input.toList) e.complaints, s')
      | .ok p =>
        let written := Script.takeWritten (s'.execute f p).2
        (written.1 ++ Script.reportOutcome (.ok input.toList) (s'.execute f p).1, written.2) := rfl

/-! ### Where the code of a session comes from -/

variable {f : Nat} {sources : List Source} {source o o' : Source} {s : Session} {n : Nat}
  {a : Activation}

/-- The programs of the sources have identities of their own below the next one, and the machine of
the session matches a state of lexical scoping with no other programs. -/
structure Sourced (sources : List Source) (s : Session) : Prop where
  tracks : ∃ ps W σ, Tracks ps s W σ ∧ ∀ p ∈ ps, ∃ o ∈ sources, o.program = p
  built : ∀ o ∈ sources, o.program.Built
  placed : ∀ o ∈ sources, o.Placed
  old : ∀ o ∈ sources, ∀ id ∈ Stmt.idsOf o.program.body, id < s.nextId
  apart : sources.Pairwise fun o o' =>
    (Stmt.idsOf o.program.body).Disjoint (Stmt.idsOf o'.program.body)

namespace Sourced

theorem initial (clock : Nat → Float) : Sourced [] (.initial clock) :=
  ⟨⟨[], _, _, .initial clock, by simp⟩, by simp, by simp, by simp, .nil⟩

/-- Identities may go unused. -/
theorem later (h : Sourced sources s) (hn : s.nextId ≤ n) :
    Sourced sources { s with nextId := n } := by
  obtain ⟨ps, W, σ, ht, hps⟩ := h.tracks
  exact ⟨⟨ps, W, σ, ht.move ht.holds ht.frame hn, hps⟩, h.built, h.placed,
    fun o ho id hid => Nat.lt_of_lt_of_le (h.old o ho id hid) hn, h.apart⟩

theorem takeWritten (h : Sourced sources s) : Sourced sources (Script.takeWritten s).2 := by
  obtain ⟨ps, W, σ, ht, hps⟩ := h.tracks
  have hm := ht.holds.withLimits { s.machine.sink with written := .empty } s.machine.maxCalls
  exact ⟨⟨ps, W, _, ht.move hm ht.frame (Nat.le_refl _), hps⟩, h.built, h.placed, h.old,
    h.apart⟩

/-- **A new program is one more source,** whether its run ends or not. -/
theorem execute (h : Sourced sources s) (hp : source.program.New s.nextId n)
    (hplaced : source.Placed) (f : Nat) :
    Sourced (source :: sources) ({ s with nextId := n }.execute f source.program).2 := by
  obtain ⟨ps, W, σ, ht, hps⟩ := h.tracks
  have hagree := ht.execute_new hp f
  have hsources : ∀ p ∈ source.program :: ps, ∃ o ∈ source :: sources, o.program = p := by
    intro p hmem
    rcases List.mem_cons.mp hmem with rfl | hmem
    · exact ⟨source, .head _, rfl⟩
    · obtain ⟨o, ho, heq⟩ := hps p hmem
      exact ⟨o, .tail _ ho, heq⟩
  have htracks : ∃ ps W σ, Tracks ps ({ s with nextId := n }.execute f source.program).2 W σ ∧
      ∀ p ∈ ps, ∃ o ∈ source :: sources, o.program = p := by
    unfold Session.execute
    dsimp only
    generalize s.machine.execute f source.program = x at hagree ⊢
    generalize Lexical.execute f source.program.body σ = y at hagree
    cases hagree with
    | done grows hm hframe => exact ⟨_, _, _, ht.ran_new hp hm hframe, hsources⟩
    | failed grows hm hframe => exact ⟨_, _, _, ht.ran_new hp hm hframe, hsources⟩
    | exhausted =>
      exact ⟨ps, W, σ, ht.move ht.holds ht.frame hp.fresh.le,
        fun p hmem => hsources p (.tail _ hmem)⟩
  have hnextId : ({ s with nextId := n }.execute f source.program).2.nextId = n := by
    unfold Session.execute Session.conclude
    split <;> rfl
  refine ⟨htracks, List.forall_mem_cons.mpr ⟨hp.built, h.built⟩,
    List.forall_mem_cons.mpr ⟨hplaced, h.placed⟩, fun o ho id hid => ?_,
    List.pairwise_cons.mpr ⟨fun o ho id hid hid' => ?_, h.apart⟩⟩
  · rw [hnextId]
    rcases List.mem_cons.mp ho with rfl | ho
    · exact (hp.fresh.mem id hid).2
    · exact Nat.lt_of_lt_of_le (h.old o ho id hid) hp.fresh.le
  · exact absurd (h.old o ho id hid') (Nat.not_lt.mpr (hp.fresh.mem id hid).1)

/-- A node that can fail is in one source only. -/
theorem unique {fault : Fault} (h : Sourced sources s) (ha : a.Raises fault) (ho : o ∈ sources)
    (ho' : o' ∈ sources) (hholds : o.Holds a) (hholds' : o'.Holds a) : o = o' := by
  have hids : ∀ {o : Source}, o ∈ sources → o.Holds a → ∀ id ∈ a.node.ids,
      id ∈ Stmt.idsOf o.program.body := by
    rintro o ho ⟨c, hv⟩
    exact (Comes.ids hv (h.built o ho).nodup).2
  obtain ⟨id, hid⟩ := List.exists_mem_of_ne_nil _ ha.ids_ne_nil
  exact eq_of_mem_disjoint h.apart ho ho' (hids ho hholds id hid) (hids ho' hholds' id hid)

/-- **What a program fails at comes from one of the sources,** its own or one of an earlier text,
and lies in the text of that one. -/
theorem origin {e : RuntimeError} {m' : Machine} (h : Sourced sources s)
    (hp : source.program.New s.nextId n) (hplaced : source.Placed)
    (hfails : s.machine.execute f source.program = .failed e m') : ∃ a outer o,
      s.machine.attributedExecute f source.program = .failed ⟨e.fault, a :: outer⟩ m' ∧
        a.Raises e.fault ∧ e.span = some a.place ∧ o ∈ source :: sources ∧ o.Holds a ∧
        (∀ o' ∈ source :: sources, o'.Holds a → o' = o) ∧
        ∃ cs, o.text = .ok cs ∧ a.place.EndsBy cs.length := by
  obtain ⟨ps, W, σ, ht, hps⟩ := h.tracks
  have hagree := ht.sequence_new hp (watched_agrees_of
    (P := fun n _ => ∃ p ∈ source.program :: ps, ∃ c, Visits p.body c n)
    (fun hm ha => by
      obtain ⟨p, hp, hv⟩ := ha.visited
      exact ⟨p, hm.texts ▸ hp, _, hv⟩) .pastGlobals f).2.2
  have hquiet := (sequence_below (watched_below .pastGlobals _ f).2.2
    source.program.body).eq_of_unbroken hagree.unbroken
  obtain ⟨a, outer, hverdict, hraises, hspan, p, hmem, c, hv⟩ := Machine.raised_by hquiet hfails
  have hsource : ∃ o ∈ source :: sources, o.Holds a := by
    rcases List.mem_cons.mp hmem with rfl | hmem
    · exact ⟨source, .head _, c, hv⟩
    · obtain ⟨o, ho, rfl⟩ := hps p hmem
      exact ⟨o, .tail _ ho, c, hv⟩
  obtain ⟨o, ho, hholds⟩ := hsource
  have hall := h.execute hp hplaced f
  exact ⟨a, outer, o, hverdict, hraises, hspan, ho, hholds,
    fun o' ho' hholds' => hall.unique hraises ho' ho hholds' hholds,
    (hall.placed o ho).endsBy hholds⟩

/-- A script that is run is one more source, if it is built. -/
theorem script (h : Sourced sources s) (f : Nat) (script : Script) :
    Sourced ((script.source? s.nextId).toList ++ sources) (script.run f s).2.2 := by
  unfold Script.source? Script.run
  cases hcontents : script.contents with
  | error failure => exact h
  | ok stream =>
    dsimp only
    have hrun : Sourced (((Program.ofParse (stream.parse s.nextId)).toOption.map fun p =>
        (⟨stream.text, p⟩ : Source)).toList ++ sources) (s.run f stream).2 := by
      unfold Session.run
      dsimp only
      cases hp : Program.ofParse (stream.parse s.nextId) with
      | error e => exact h.later (firstId_le_nextId _ _)
      | ok p => exact h.execute (Program.ofParse_new hp) (Script.placed hp) f
    have hwritten := hrun.takeWritten
    generalize s.run f stream = x at hwritten
    obtain ⟨outcome, s'⟩ := x
    cases outcome <;> exact hwritten

/-- A line is taken. -/
theorem feed {r r' : Repl} {line : InputLine} (h : Sourced sources r.session)
    (hfeed : (r.feed f line).2 = some r') :
    Sourced ((r.source? line).toList ++ sources) r'.session := by
  unfold source?
  cases hwhole : r.whole? line with
  | none =>
    rw [(feed_not_whole f hwhole).2 r' hfeed]
    exact h
  | some input =>
    rw [feed_whole f hwhole, submit, runInput_eq] at hfeed
    dsimp only [Option.bind_some] at hfeed ⊢
    cases hp : build r.session.nextId input with
    | error e =>
      rw [hp] at hfeed
      cases hfeed
      exact h.later (firstId_le_nextId _ _)
    | ok p =>
      rw [hp] at hfeed
      cases hfeed
      exact (h.execute (build_new hp) (build_placed hp) f).takeWritten

end Sourced

/-- **All code of a session comes from its sources.** -/
theorem Attends.sourced {clock : Nat → Float} {r : Repl} (h : Attends f clock sources r) :
    Sourced sources r.session := by
  induction h with
  | @launch c look r hlaunch =>
    unfold Command.launch at hlaunch
    cases hscript : c.script? look with
    | none =>
      rw [hscript] at hlaunch
      cases hlaunch
      exact .initial clock
    | some script =>
      rw [hscript] at hlaunch
      dsimp only [Option.bind_some] at hlaunch ⊢
      have hsourced := (Sourced.initial clock).script f script
      rw [List.append_nil] at hsourced
      split_ifs at hlaunch
      cases hlaunch
      exact hsourced
  | line _ hfeed ih => exact ih.feed hfeed

end Repl
end ClassScript
