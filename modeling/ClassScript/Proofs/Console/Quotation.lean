/-
# What the lines below an error are taken from

The interactive loop reports the error of an input with the lines of that input that the span of the
error covers. The node that failed comes from exactly one text of the session, and its span covers
lines of that text. This is the input itself, unless the node is code of a function that an earlier
text has declared. Then the lines that are shown are others: those of the input at the same indices,
cut off where it ends (`Repl.errors_quote_input_later_call`).

Key definition: `Repl.failureShown`.
Key theorem: `Repl.errors_quote_input`.
-/
import ClassScript.Proofs.Console.Interaction
import ClassScript.Proofs.Diagnostic.Resolution

namespace ClassScript
namespace Repl

open Diagnostic (Excerpt Resolves)

variable {f : Nat} {clock : Nat → Float} {sources : List Source} {r : Repl} {line : InputLine}
  {source : Source} {e : RuntimeError} {m' : Machine}

/-- What is run on a line is an input that has been built. -/
theorem source?_eq_some (h : r.source? line = some source) : ∃ input p,
    r.whole? line = some input ∧ build r.session.nextId input = .ok p ∧
      source = ⟨.ok input.toList, p⟩ := by
  unfold source? at h
  obtain ⟨input, hwhole, h⟩ := Option.bind_eq_some_iff.mp h
  obtain ⟨p, hp, rfl⟩ := Option.map_eq_some_iff.mp h
  cases hbuild : build r.session.nextId input with
  | error errors =>
    rw [hbuild] at hp
    cases hp
  | ok q =>
    rw [hbuild] at hp
    cases hp
    exact ⟨input, p, hwhole, hbuild, rfl⟩

/-- The error of the input that a line makes whole, if it is run and fails. -/
def failure? (f : Nat) (r : Repl) (line : InputLine) : Option RuntimeError :=
  (r.source? line).bind fun source =>
    match r.session.machine.execute f source.program with
    | .failed e _ => some e
    | _ => none

theorem failure?_eq_some (h : r.failure? f line = some e) : ∃ source m',
    r.source? line = some source ∧ r.session.machine.execute f source.program = .failed e m' := by
  obtain ⟨source, hsource, h⟩ := Option.bind_eq_some_iff.mp h
  cases hfails : r.session.machine.execute f source.program with
  | failed e' m' =>
    rw [hfails] at h
    cases h
    exact ⟨source, m', hsource, hfails⟩
  | done | broken | exhausted =>
    rw [hfails] at h
    cases h

theorem text_of_whole {input : String} (hwhole : r.whole? line = some input)
    (hsource : r.source? line = some source) : source.text = .ok input.toList := by
  obtain ⟨input', p, hwhole', -, rfl⟩ := source?_eq_some hsource
  rw [Option.some.inj (hwhole.symm.trans hwhole')]

/-- What is shown of a run that failed: what it wrote, and the lines of a text below the error. -/
def failureShown (text : List Char) (span : Span) (e : RuntimeError) (m : Machine) : Transcript :=
  .ofOut (Utf8.decodeLossy m.sink.written.toList) ++
    .ofErr ((Excerpt.of text span).render e.message ++ "\n")

theorem failureShown_err (text : List Char) (span : Span) (e : RuntimeError) (m : Machine) :
    (failureShown text span e m).err = (Excerpt.of text span).render e.message ++ "\n" :=
  String.empty_append

/-- What a failing input shows are its own lines. -/
theorem feed_failed {input : String} {p : Program} {span : Span}
    (hwhole : r.whole? line = some input) (hbuild : build r.session.nextId input = .ok p)
    (hfails : r.session.machine.execute f p = .failed e m') (hspan : e.span = some span) :
    (r.feed f line).1 = failureShown input.toList span e m' := by
  rw [feed_whole f hwhole, submit, runInput_eq]
  dsimp only
  rw [hbuild]
  dsimp only [Session.execute]
  rw [hfails]
  dsimp only [Session.conclude, Script.takeWritten, Session.takeOutput, Script.reportOutcome,
    Complaint.report]
  rw [hspan]
  simp [failureShown, Diagnostic.printed, Except.toOption]

/-- **The lines below an error are those of the input that was run.** In a session that the command
line has begun, with a script or without, and that has taken some lines, a line makes an input
whole, which is built and run, and fails. The error has the place of the expression or statement
that raised it. This is code of exactly one text that was built in the session, in which its span
lies. But the lines shown are always those of the input: those that the span, cut off at the end of
the input, covers there. Where the input is the text that the node comes from, these are the lines
of the node, and nothing is cut off. -/
theorem errors_quote_input (h : Attends f clock sources r) (hsource : r.source? line = some source)
    (hfails : r.session.machine.execute f source.program = .failed e m') :
    ∃ (n : Activation) (outer : List Activation) (origin : Source) (own input : List Char),
      r.session.machine.attributedExecute f source.program =
        .failed ⟨e.fault, n :: outer⟩ m' ∧ n.Raises e.fault ∧ e.span = some n.place ∧
      origin ∈ source :: sources ∧ origin.Holds n ∧
      (∀ o ∈ source :: sources, o.Holds n → o = origin) ∧
      origin.text = .ok own ∧ n.place.EndsBy own.length ∧
      Resolves own n.place (Excerpt.of own n.place) ∧
      source.text = .ok input ∧
      Resolves input ⟨min n.place.start input.length, min n.place.stop input.length⟩
        (Excerpt.of input n.place) ∧
      (r.feed f line).1 = failureShown input n.place e m' ∧
      (origin = source → (r.feed f line).1 = failureShown own n.place e m') := by
  obtain ⟨input, p, hwhole, hbuild, rfl⟩ := source?_eq_some hsource
  obtain ⟨n, outer, origin, hverdict, hraises, hspan, horigin, hholds, hunique, own, hown, hends⟩ :=
    h.sourced.origin (build_new hbuild) (build_placed hbuild) hfails
  have hshown := feed_failed hwhole hbuild hfails hspan
  have hcut : Resolves input.toList
      ⟨min n.place.start input.toList.length, min n.place.stop input.toList.length⟩
      (Excerpt.of input.toList n.place) := by
    have hforward := hends.1
    rw [Diagnostic.of_cut]
    exact Diagnostic.resolves_of (by dsimp only; omega) (Nat.min_le_right ..)
  refine ⟨n, outer, origin, own, input.toList, hverdict, hraises, hspan, horigin, hholds, hunique,
    hown, hends, Diagnostic.resolves_of hends.1 hends.2, rfl, hcut, hshown, ?_⟩
  rintro rfl
  obtain rfl := Except.ok.inj hown
  exact hshown

/-- An input that fails by itself, behind a script that declares a variable. -/
theorem errors_quote_input_behind_script :
    let c : Command := { command := some "var a;", interactive := true }
    let look : String → Entry := fun _ => .directory
    let typed := "print a + 1;\n"
    ∃ r source e m' n, (c.launch 99 (.initial fun _ => 0) look).repl = some r ∧
      r.source? (.text typed) = some source ∧
      r.session.machine.execute 99 source.program = .failed e m' ∧ n.Raises e.fault ∧
      source.Holds n ∧ Resolves typed.toList n.place (Excerpt.of typed.toList n.place) ∧
      (r.feed 99 (.text typed)).1 = failureShown typed.toList n.place e m' := by
  intro c look typed
  have hrun : ((c.launch 99 (.initial fun _ => 0) look).repl.bind fun r =>
      (r.failure? 99 (.text typed)).map fun e => (r.whole? (.text typed), e.span)) =
        some (some typed, some ⟨6, 11⟩) := by
    decide +kernel
  obtain ⟨r, hr, hrun⟩ := Option.bind_eq_some_iff.mp hrun
  obtain ⟨e, hfailure, hrun⟩ := Option.map_eq_some_iff.mp hrun
  obtain ⟨hwhole, hspan⟩ := Prod.mk.inj hrun
  obtain ⟨source, m', hsource, hfails⟩ := failure?_eq_some hfailure
  have htyped : source.text = .ok typed.toList := text_of_whole hwhole hsource
  have hscript : ((c.script? look).bind (Script.source? 0)).map Source.text =
      some (.ok "var a;".toList) := by
    decide +kernel
  obtain ⟨n, -, origin, own, -, -, hraises, hplace, horigin, hholds, -, hown, hends, hresolves, -,
    -, -, hshown⟩ := errors_quote_input (.launch hr) hsource hfails
  have hn : n.place = ⟨6, 11⟩ := Option.some.inj (hplace.symm.trans hspan)
  obtain rfl : origin = source := by
    rcases List.mem_cons.mp horigin with rfl | hmem
    · rfl
    · -- the text of the script ends in front of the place of the error
      rw [Option.mem_toList.mp hmem] at hscript
      obtain rfl := Except.ok.inj (hown.symm.trans (Option.some.inj hscript))
      rw [hn] at hends
      exact absurd hends.2 (by decide)
  obtain rfl : own = typed.toList := Except.ok.inj (hown.symm.trans htyped)
  exact ⟨r, origin, e, m', n, hr, hsource, hfails, hraises, hholds, hresolves, hshown rfl⟩

/-- **The error of a function that an earlier input declares does not show its code.** What is wrong
stands in the only line of the first input. The second input calls the function, and ends in front
of the span, so that the line shown is the empty one behind its own. -/
theorem errors_quote_input_later_call :
    let declared := "fun f() { return 1 + nil; }\n"
    let call := InputLine.text "f();\n"
    let message := "Runtime error: unsupported operands for '+': 'number' and 'nil'.\n\n"
    ∃ sources r source origin e m' n outer,
      Attends 99 (fun _ => 0) sources r ∧ r.source? call = some source ∧
      r.session.machine.execute 99 source.program = .failed e m' ∧
      r.session.machine.attributedExecute 99 source.program = .failed ⟨e.fault, n :: outer⟩ m' ∧
      n.Raises e.fault ∧ origin ∈ sources ∧ origin.Holds n ∧ origin.text = .ok declared.toList ∧
      (failureShown declared.toList n.place e m').err =
        message ++ "  1|    fun f() { return 1 + nil; }\n" ++
          "                         ^^^^^^^\n\n" ∧
      (r.feed 99 call).1.err = message ++ "  2|    \n" ++ "        ^\n\n" ∧
      (r.feed 99 call).1 ≠ failureShown declared.toList n.place e m' := by
  intro declared call message
  have hrepl : (Command.launch 99 (.initial fun _ => 0) {} fun _ => .directory).repl =
      some ⟨.initial fun _ => 0, ""⟩ := rfl
  have hlaunch : Attends 99 (fun _ => 0) [] ⟨.initial fun _ => 0, ""⟩ := .launch hrepl
  have hrun : ((feed 99 ⟨.initial fun _ => 0, ""⟩ (.text declared)).2.bind fun r =>
      (r.failure? 99 call).map fun e =>
        (r.whole? call, e.span, e.message, (r.feed 99 call).1.err)) =
        some (some "f();\n", some ⟨17, 24⟩,
          "runtime error: unsupported operands for '+': 'number' and 'nil'",
          message ++ "  2|    \n" ++ "        ^\n\n") := by
    decide +kernel
  obtain ⟨r, hr, hrun⟩ := Option.bind_eq_some_iff.mp hrun
  obtain ⟨e, hfailure, hrun⟩ := Option.map_eq_some_iff.mp hrun
  obtain ⟨hwhole, hspan, hmessage, hshown⟩ := by simpa only [Prod.mk.injEq] using hrun
  obtain ⟨source, m', hsource, hfails⟩ := failure?_eq_some hfailure
  have hdeclared : (source? ⟨.initial fun _ => 0, ""⟩ (.text declared)).map Source.text =
      some (.ok declared.toList) := by
    decide +kernel
  have hattends := hlaunch.line hr
  obtain ⟨input, p, -, hbuild, rfl⟩ := source?_eq_some hsource
  obtain ⟨n, outer, origin, hverdict, hraises, hplace, horigin, hholds, -, own, hown, hends⟩ :=
    hattends.sourced.origin (build_new hbuild) (build_placed hbuild) hfails
  have hcall := text_of_whole hwhole hsource
  have hn : n.place = ⟨17, 24⟩ := Option.some.inj (hplace.symm.trans hspan)
  rcases List.mem_cons.mp horigin with rfl | horigin
  · -- the text of the call ends in front of the place of the error
    obtain rfl : own = "f();\n".toList := Except.ok.inj (hown.symm.trans hcall)
    rw [hn] at hends
    exact absurd hends.2 (by decide)
  · have hmem := Option.mem_toList.mp (List.append_nil _ ▸ horigin)
    rw [hmem] at hdeclared
    have hexpected : (failureShown declared.toList n.place e m').err =
        message ++ "  1|    fun f() { return 1 + nil; }\n" ++
          "                         ^^^^^^^\n\n" := by
      rw [failureShown_err, hn, hmessage]
      decide +kernel
    refine ⟨_, r, _, origin, e, m', n, outer, hattends, hsource, hfails, hverdict, hraises, horigin,
      hholds, Option.some.inj hdeclared, hexpected, hshown, fun heq => ?_⟩
    rw [heq, hexpected] at hshown
    exact absurd hshown (by decide +kernel)

end Repl
end ClassScript
