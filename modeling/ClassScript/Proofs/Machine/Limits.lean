/-
# Limits only cut runs off

A machine limits how deep calls nest and how much output there is. With looser limits
(`Machine.loosened`) a run has the same events and the same answer, unless it meets a limit
that was loosened. Then it ends there, and its events are the first ones of the looser run
(`Loosens`): nothing catches the error or goes another way because of it.

Key theorems: `call_limit_cuts_off` for the limit to calls, `sink_limit_cuts_off` for the
output.
-/
import ClassScript.Proofs.Machine.Output

namespace ClassScript

open Scope Traced

variable {α β : Type} {m : Machine} {t : Traced α}

/-! ### Looser limits -/

/-- Changes of the limits to calls and to output by which a run may end at most later. The faults
with which a run ends at a limit that was loosened are `Halts`. -/
structure Loosening where
  maxCalls : Nat → Nat
  sink : Sink → Sink
  Halts : Fault → Prop
  deeper : ∀ n, n ≤ maxCalls n
  tooDeep : ∀ n calls, n ≤ calls → maxCalls n ≤ calls ∨ Halts .tooDeep
  writes : ∀ s text, (sink s).write text = ((s.write text).1, sink (s.write text).2) ∨
    ∃ reason, (s.write text).1 = some reason ∧ Halts (.outputFailed reason)

/-- The machine with looser limits. -/
def Machine.loosened (ℓ : Loosening) (m : Machine) : Machine :=
  { m with maxCalls := ℓ.maxCalls m.maxCalls, sink := ℓ.sink m.sink }

variable {ℓ : Loosening}

/-- The run ended at a limit that was loosened. -/
def Halted (ℓ : Loosening) (x : Answer α) : Prop := ∃ e m', x = .failed e m' ∧ ℓ.Halts e.fault

/-- From `x` to `y` the limits were loosened: nothing else has changed, or `x` was cut off. -/
def Cut (ℓ : Loosening) (x y : List Event × Answer α) : Prop :=
  y = (x.1, x.2.mapMachine (.loosened ℓ)) ∨ Halted ℓ x.2 ∧ x.1 <+: y.1

/-- What happens under a limit happens first without it. -/
theorem Cut.starts {x y : List Event × Answer α} (h : Cut ℓ x y) : x.1 <+: y.1 := by
  rcases h with rfl | ⟨-, hstarts⟩
  · exact List.prefix_rfl
  · exact hstarts

theorem Cut.same {x y : List Event × Answer α} (h : Cut ℓ x y) (hx : ¬ Halted ℓ x.2) :
    y.1 = x.1 ∧ y.2 = x.2.mapMachine (.loosened ℓ) := by
  rcases h with rfl | ⟨hhalted, -⟩
  · exact ⟨rfl, rfl⟩
  · exact absurd hhalted hx

def Loosens (ℓ : Loosening) (t : Traced α) : Prop := ∀ m, Cut ℓ (t m) (t (m.loosened ℓ))

namespace Loosens

theorem seen {r : Run α} (view : View) (hr : Plain r) : Loosens ℓ (seen view r) := by
  intro m
  have hfree : r (m.loosened ℓ) = (r m).mapMachine (.loosened ℓ) := by
    have hkeeps := hr.steady m
    have hsink : ∀ m' ∈ (r m).machine?, m'.sink = m.sink := fun _ => hr.sink
    refine (hr.free m m.calls (ℓ.maxCalls m.maxCalls) (ℓ.sink m.sink)).trans ?_
    generalize r m = x at hkeeps hsink
    cases hkeeps with
    | done hkept | failed hkept =>
      simp only [Answer.mapMachine, Machine.loosened, hkept.calls, hkept.maxCalls, hsink _ rfl]
    | broken b => rfl
    | exhausted => rfl
  refine .inl ?_
  unfold Traced.seen
  rw [hfree]
  cases r m <;> rfl

/-- **One run after the other.** -/
theorem bind {g : α → Traced β} (ht : Loosens ℓ t) (hg : ∀ a, Loosens ℓ (g a)) :
    Loosens ℓ (t >>= g) := by
  intro m
  show Cut ℓ (Traced.bind t g m) (Traced.bind t g (m.loosened ℓ))
  unfold Traced.bind
  rcases ht m with heq | ⟨⟨e, m₁, he, hhalts⟩, hpre⟩
  · rw [heq]
    obtain ⟨es, x⟩ := t m
    cases x with
    | failed | broken | exhausted => exact .inl rfl
    | done a m₁ =>
      dsimp only [Answer.mapMachine]
      rcases hg a m₁ with heq' | ⟨hhalted, hpre⟩
      · rw [heq']
        exact .inl rfl
      · exact .inr ⟨hhalted, (List.prefix_append_right_inj es).mpr hpre⟩
  · -- the run is cut off here, and the looser one may go on
    generalize t m = x at he hpre
    generalize t (m.loosened ℓ) = y at hpre
    obtain ⟨es, x⟩ := x
    obtain ⟨es', y⟩ := y
    obtain rfl : x = .failed e m₁ := he
    refine .inr ⟨⟨e, m₁, rfl, hhalts⟩, ?_⟩
    cases y with
    | done a m₂ => exact hpre.trans (List.prefix_append _ _)
    | failed | broken | exhausted => exact hpre

theorem located (span : Span) (ht : Loosens ℓ t) : Loosens ℓ (t.located span) := by
  intro m
  unfold Traced.located Run.located Traced.run
  rcases ht m with heq | ⟨⟨e, m₁, he, hhalts⟩, hpre⟩
  · rw [heq]
    obtain ⟨es, x⟩ := t m
    cases x <;> exact .inl rfl
  · rw [he]
    exact .inr ⟨⟨e.locate span, m₁, rfl, hhalts⟩, hpre⟩

/-- A run on another machine, of which the limits are the same. -/
theorem framed (enter leave : Machine → Machine) (ht : Loosens ℓ t)
    (henter : ∀ m : Machine, (enter m).loosened ℓ = enter (m.loosened ℓ))
    (hleave : ∀ m : Machine, (leave m).loosened ℓ = leave (m.loosened ℓ)) (es : List Event)
    (m : Machine) :
    Cut ℓ (es ++ (t (enter m)).1, (t (enter m)).2.mapMachine leave)
      (es ++ (t (enter (m.loosened ℓ))).1, (t (enter (m.loosened ℓ))).2.mapMachine leave) := by
  rw [← henter]
  rcases ht (enter m) with heq | ⟨⟨e, m₁, he, hhalts⟩, hpre⟩
  · rw [heq]
    refine .inl ?_
    obtain ⟨es', x⟩ := t (enter m)
    cases x with
    | done | failed => simp only [Answer.mapMachine, hleave]
    | broken | exhausted => rfl
  · rw [he]
    exact .inr ⟨⟨e, leave m₁, rfl, hhalts⟩, (List.prefix_append_right_inj es).mpr hpre⟩

theorem inFrame (frame : Nat) (ht : Loosens ℓ t) : Loosens ℓ (t.inFrame frame) := fun m =>
  framed (fun m => { m with frame }) (fun m' => { m' with frame := m.frame }) ht (fun _ => rfl)
    (fun _ => rfl) [] m

theorem visit (within : Option Closure) (n : Node) (ht : Loosens ℓ t) :
    Loosens ℓ (t.visit within n) := by
  intro m
  rcases ht m with heq | ⟨hhalted, hpre⟩
  · refine .inl ?_
    unfold Traced.visit
    rw [heq]
    rfl
  · exact .inr ⟨hhalted, List.cons_prefix_cons.mpr ⟨rfl, hpre⟩⟩

theorem printLine (span : Span) (text : String) : Loosens ℓ (Traced.printLine span text) := by
  intro m
  have hwrites := ℓ.writes m.sink (text ++ "\n")
  have hsink : (m.loosened ℓ).sink = ℓ.sink m.sink := rfl
  unfold Traced.printLine Run.printLine
  rw [hsink]
  generalize m.sink.write (text ++ "\n") = w at hwrites
  obtain ⟨refusal, sink⟩ := w
  rcases hwrites with heq | ⟨reason, rfl, hhalts⟩
  · rw [heq]
    cases refusal <;> exact .inl rfl
  · exact .inr ⟨⟨_, _, rfl, hhalts⟩, List.prefix_rfl⟩

theorem asCall (d : Nat) (callee : Value) (args : List Value) (ht : Loosens ℓ t) :
    Loosens ℓ (t.asCall d callee args) := by
  intro m
  unfold Traced.asCall Run.asCall
  by_cases hdeep : m.maxCalls ≤ m.calls
  · rw [if_pos hdeep, if_pos hdeep]
    rcases ℓ.tooDeep m.maxCalls m.calls hdeep with hstill | hhalts
    · change (m.loosened ℓ).maxCalls ≤ (m.loosened ℓ).calls at hstill
      rw [if_pos hstill, if_pos hstill]
      exact .inl rfl
    · exact .inr ⟨⟨_, _, rfl, hhalts⟩, List.nil_prefix⟩
  · have hloose : ¬ (m.loosened ℓ).maxCalls ≤ (m.loosened ℓ).calls := fun h =>
      hdeep (Nat.le_trans (ℓ.deeper m.maxCalls) h)
    rw [if_neg hdeep, if_neg hdeep, if_neg hloose, if_neg hloose]
    exact framed (fun m => { m with calls := m.calls + 1 }) (fun m' => { m' with calls := m'.calls - 1 })
      ht (fun _ => rfl) (fun _ => rfl) [⟨m.moment, .calls (d + 1) callee args⟩] m

theorem closed : Closed fun _ {_} t => Loosens ℓ t where
  seen view hr := seen view hr
  print span _ ht := located span (bind ht fun v => bind (printLine span v.display) fun _ =>
    seen .nothing (.pure _))
  bind _ ht hg := bind ht hg
  located span ht := located span ht
  inFrame frame ht := inFrame frame ht
  visit within n ht := visit within n ht
  asCall callee args _ ht := asCall _ callee args ht

end Loosens

/-- **Looser limits change nothing but where a run is cut off.** -/
theorem traced_loosens (ℓ : Loosening) (f : Nat) (program : List Stmt) :
    Loosens ℓ (tracedAll f program) :=
  Loosens.closed.program f program

/-! ### Active calls -/

/-- At most `n` calls are active at the event. -/
def Event.Within (n : Nat) (e : Event) : Prop :=
  ∀ k callee args, e.happening = .calls k callee args → k ≤ n

/-- From a machine that counts the active calls right, no more calls get active than are allowed. -/
def Bounded (d : Nat) (t : Traced α) : Prop :=
  ∀ m : Machine, m.calls = d → ∀ e ∈ (t m).1, e.Within m.maxCalls

namespace Bounded

variable {d : Nat}

theorem bind {g : α → Traced β} (hs : Steady t.run) (ht : Bounded d t) (hg : ∀ a, Bounded d (g a)) :
    Bounded d (t >>= g) := by
  intro m hm e he
  have hfirst := ht m hm
  have hkeeps := hs m
  change e ∈ (Traced.bind t g m).1 at he
  unfold Traced.bind at he
  unfold Traced.run at hkeeps
  generalize t m = x at he hfirst hkeeps
  obtain ⟨es, x⟩ := x
  cases x with
  | failed | broken | exhausted => exact hfirst e he
  | done a m₁ =>
    cases hkeeps with
    | done hkept =>
      rcases List.mem_append.mp he with hold | hnew
      · exact hfirst e hold
      · rw [← hkept.maxCalls]
        exact hg a m₁ (hkept.calls.trans hm) e hnew

theorem seen {r : Run α} (view : View) : Bounded d (seen view r) := by
  intro m hm e he k callee args hcalls
  unfold Traced.seen at he
  cases hr : r m with
  | done a m' =>
    rw [hr] at he
    rcases View.mem_see he with ⟨frame, h⟩ | ⟨frame, parent, methods, h⟩
    · rw [hcalls] at h
      cases h
    · rw [hcalls] at h
      cases h
  | failed | broken | exhausted =>
    rw [hr] at he
    cases he

theorem printLine (span : Span) (text : String) : Bounded d (Traced.printLine span text) := by
  intro m hm e he k callee args hcalls
  obtain rfl := List.mem_singleton.mp he
  cases hcalls

theorem closed : Closed fun d {_} t => Bounded d t where
  seen view _ := seen view
  print span hs ht := by
    have hprinting : Bounded _ (printing span _) := bind hs ht fun v =>
      bind (.printLine v.display) (printLine span v.display) fun _ =>
      seen (r := pure Flow.next) .nothing
    exact fun m hm => hprinting m hm
  bind hs ht hg := bind hs ht hg
  located span ht := fun m hm => ht m hm
  inFrame frame ht := fun m hm => ht { m with frame } hm
  visit within n ht := by
    intro m hm e he
    rcases List.mem_cons.mp he with rfl | he
    · rintro k callee args ⟨⟩
    · exact ht m hm e he
  asCall callee args _ ht := by
    intro m hm e he
    unfold Traced.asCall at he
    by_cases hdeep : m.maxCalls ≤ m.calls
    · simp [hdeep] at he
    · simp only [if_neg hdeep] at he
      rcases List.mem_cons.mp he with rfl | he
      · rintro k callee args ⟨⟩
        omega
      · exact ht { m with calls := m.calls + 1 } (congrArg (· + 1) hm) e he

end Bounded

/-! ### Programs -/

/-- **A program under looser limits.** -/
theorem execute_cut (ℓ : Loosening) (f : Nat) (p : Program) (m : Machine) :
    Cut ℓ (m.events f p, m.execute f p) ((m.loosened ℓ).events f p, (m.loosened ℓ).execute f p) := by
  rw [Machine.execute_eq, Machine.execute_eq]
  unfold Machine.events
  have hcut := traced_loosens ℓ f p.body { m with depths := m.depths.merge p.depths }
  change Cut ℓ _ (tracedAll f p.body
    { m.loosened ℓ with depths := (m.loosened ℓ).depths.merge p.depths }) at hcut
  rcases hcut with heq | ⟨⟨e, m₁, he, hhalts⟩, hpre⟩
  · rw [heq]
    refine .inl ?_
    cases (tracedAll f p.body _).2 <;> rfl
  · rw [he]
    exact .inr ⟨⟨e, m₁.atRest, rfl, hhalts⟩, hpre⟩

theorem Answer.mapMachine_congr {x : Answer α} {f g : Machine → Machine}
    (h : ∀ m' ∈ x.machine?, f m' = g m') : x.mapMachine f = x.mapMachine g := by
  cases x with
  | done a m' | failed e m' => simp only [Answer.mapMachine, h m' rfl]
  | broken | exhausted => rfl

/-- A change of the machine that is undone. -/
theorem Answer.mapMachine_undone {x : Answer α} {f g : Machine → Machine}
    (h : ∀ m' ∈ x.machine?, g (f m') = m') : (x.mapMachine f).mapMachine g = x := by
  cases x with
  | done a m' | failed e m' => simp only [Answer.mapMachine, h m' rfl]
  | broken | exhausted => rfl

theorem execute_maxCalls (f : Nat) (p : Program) (m : Machine) :
    ∀ m' ∈ (m.execute f p).machine?, m'.maxCalls = m.maxCalls := by
  intro m' hm'
  have hkeeps := sequence_steady (runs_steady f).2.2 p.body
    { m with depths := m.depths.merge p.depths }
  unfold Machine.execute execAll at hm'
  generalize Run.sequence (exec f) p.body _ = x at hkeeps hm'
  cases hkeeps with
  | done hkept | failed hkept =>
    cases hm'
    exact hkept.maxCalls
  | broken | exhausted => cases hm'

/-! ### The limit to calls -/

/-- So many calls more. -/
def Loosening.calls (more : Nat) : Loosening where
  maxCalls := (· + more)
  sink := id
  Halts fault := fault = .tooDeep
  deeper n := Nat.le_add_right n more
  tooDeep _ _ _ := .inr rfl
  writes _ _ := .inl rfl

/-- **The limit to calls is only a cut-off.** Let a program run, from a machine without active calls,
under a limit and under another one that is not lower. Under the lower one no more calls than it
says are ever active at once. Unless the run under it ends because calls nest too deep, the run
under the other limit has the same events and the same answer, with the same machine but for the
limit. If it does end so, then it has done what the other run does first: its output is what is
printed up to there, and a prefix of what the other run writes, whether that ends or not. -/
theorem call_limit_cuts_off (p : Program) (f : Nat) {m : Machine} (hm : m.calls = 0) {n k : Nat}
    (hnk : n ≤ k) :
    let low := { m with maxCalls := n }
    let high := { m with maxCalls := k }
    (∀ e ∈ low.events f p, e.Within n) ∧
    ((∀ e m', low.execute f p = .failed e m' → e.fault ≠ .tooDeep) →
      high.events f p = low.events f p ∧
      high.execute f p = (low.execute f p).mapMachine fun m' => { m' with maxCalls := k }) ∧
    ∀ e m', low.execute f p = .failed e m' → e.fault = .tooDeep →
      low.events f p <+: high.events f p ∧
      m'.sink.written = m.sink.written ++ printed (low.events f p) ∧
      (∃ rest, (m.sink.take (printed (high.events f p))).written = m'.sink.written ++ rest) ∧
      ∀ m'' ∈ (high.execute f p).machine?, m''.sink = m.sink.take (printed (high.events f p)) := by
  intro low high
  have hhigh : low.loosened (.calls (k - n)) = high := by
    have hk : n + (k - n) = k := by omega
    show { m with maxCalls := n + (k - n) } = high
    rw [hk]
  have hcut := execute_cut (.calls (k - n)) f p low
  rw [hhigh] at hcut
  refine ⟨fun e he => ?_, fun hdeep => ?_, ?_⟩
  · exact Bounded.closed.program f p.body { low with depths := low.depths.merge p.depths } hm e he
  · obtain ⟨hevents, hanswer⟩ := hcut.same fun ⟨e, m', he, hhalts⟩ => hdeep e m' he hhalts
    refine ⟨hevents, hanswer.trans (Answer.mapMachine_congr fun m' hm' => ?_)⟩
    have hmax : m'.maxCalls = n := execute_maxCalls f p low m' hm'
    have hk : n + (k - n) = k := by omega
    show { m' with maxCalls := m'.maxCalls + (k - n) } = _
    rw [hmax, hk]
  · intro e m' he hdeep
    have hpre : low.events f p <+: high.events f p := hcut.starts
    -- an error that is none of the output comes after all of it
    have hlow := execute_delivered f p low
    rw [he] at hlow
    obtain ⟨fits, sink⟩ : m.sink.Fits (printed (low.events f p)) ∧
        m'.sink = m.sink.take (printed (low.events f p)) := by
      generalize low.events f p = es at hlow
      cases hlow with
      | failed fits sink => exact ⟨fits, sink⟩
      | refused => cases hdeep
    refine ⟨hpre, by rw [sink, Sink.take_written fits], ?_, fun m'' hm'' =>
      (execute_delivered f p high).sink hm''⟩
    obtain ⟨more, hmore⟩ := hpre
    rw [← hmore, printed_append, ← Sink.take_take fits, ← sink]
    exact Sink.written_take _ _

/-- A function that calls itself without end, under limits of two and of three calls. -/
theorem call_limit_cuts_off_recursion :
    let text := CharStream.ofString "fun f() { print true; f(); } f();"
    let m := Machine.initial fun _ => 0
    ∃ p, Program.ofParse (text.parse 0) = .ok p ∧
      ∃ e m', { m with maxCalls := 2 }.execute 99 p = .failed e m' ∧ e.fault = .tooDeep ∧
        ∃ rest, (m.sink.take (printed ({ m with maxCalls := 3 }.events 99 p))).written =
          m'.sink.written ++ rest := by
  intro text m
  have hrun : ((Program.ofParse (text.parse 0)).toOption.bind fun p =>
      ({ m with maxCalls := 2 }.execute 99 p).fault?) = some .tooDeep := by
    decide +kernel
  cases hp : Program.ofParse (text.parse 0) with
  | error e =>
    rw [hp] at hrun
    cases hrun
  | ok p =>
    rw [hp] at hrun
    change ({ m with maxCalls := 2 }.execute 99 p).fault? = some .tooDeep at hrun
    refine ⟨p, rfl, ?_⟩
    obtain ⟨-, -, hdeep⟩ := call_limit_cuts_off p 99 (m := m) rfl (n := 2) (k := 3) (by decide)
    generalize { m with maxCalls := 2 }.execute 99 p = x at hrun hdeep
    cases x with
    | failed e m' =>
      have hfault : e.fault = .tooDeep := Option.some.inj hrun
      exact ⟨e, m', rfl, hfault, (hdeep e m' rfl hfault).2.2.1⟩
    | done | broken | exhausted => cases hrun

/-! ### The limit to output -/

/-- No limit to the output. -/
def Loosening.output : Loosening where
  maxCalls := id
  sink s := { s with room := none }
  Halts fault := ∃ reason, fault = .outputFailed reason
  deeper _ := Nat.le_refl _
  tooDeep _ _ h := .inl h
  writes s text := by
    by_cases hfits : s.Fits text.toUTF8
    · refine .inl ?_
      rw [Sink.write_of_fits hfits, Sink.write_of_fits fun n hn => by cases hn]
      show (none, ({ s with written := s.written ++ text.toUTF8, room := none } : Sink)) =
        (none, ⟨(s.take text.toUTF8).written, none, (s.take text.toUTF8).reason⟩)
      rw [Sink.take_written hfits, Sink.take_reason]
    · exact .inr ⟨s.reason, by rw [Sink.write_of_not_fits hfits], s.reason, rfl⟩

/-- A run whose texts all fit does not end at the limit to output. -/
theorem Delivered.not_halted {Q : Span → Option Span → Prop} {es : List Event} {x : Answer α}
    (h : Delivered Q m (es, x)) (hfits : m.sink.Fits (printed es)) : ¬ Halted .output x := by
  rintro ⟨e, m', rfl, reason, hreason⟩
  cases h with
  | failed fits sink cause => exact cause reason hreason
  | refused fits full at_span => exact full hfits

section Limited

variable (p : Program) (f : Nat) (m : Machine) (n : Nat)

/-- As long as all output fits, the limit makes no difference. -/
theorem execute_limited (hfits : (printed ({ m with sink.room := some n }.events f p)).size ≤ n) :
    { m with sink.room := none }.events f p = { m with sink.room := some n }.events f p ∧
      { m with sink.room := none }.execute f p =
        ({ m with sink.room := some n }.execute f p).mapMachine (.loosened .output) := by
  refine (execute_cut .output f p { m with sink.room := some n }).same ?_
  exact (execute_delivered f p _).not_halted fun k hk => by
    cases hk
    exact hfits

/-- **The events under the limit are the first ones without it,** and the output is the same up to the
limit. -/
theorem printed_limited :
    { m with sink.room := some n }.events f p <+: { m with sink.room := none }.events f p ∧
      (printed ({ m with sink.room := some n }.events f p)).extract 0 n =
        (printed ({ m with sink.room := none }.events f p)).extract 0 n := by
  have hstarts := (execute_cut .output f p { m with sink.room := some n }).starts
  refine ⟨hstarts, ?_⟩
  by_cases hle : (printed ({ m with sink.room := some n }.events f p)).size ≤ n
  · rw [(execute_limited p f m n hle).1]
  · obtain ⟨more, hmore⟩ := hstarts
    have hout : printed ({ m with sink.room := none }.events f p) =
        printed ({ m with sink.room := some n }.events f p) ++ printed more := by
      rw [← printed_append]
      exact congrArg printed hmore.symm
    rw [hout, extract_append_of_le (by omega)]

/-- **Where not all output fits, the last text is the one that goes beyond the limit.** -/
theorem refused_limited
    (hover : n < (printed ({ m with sink.room := some n }.events f p)).size) :
    ∃ before moment span text,
      { m with sink.room := some n }.events f p = before ++ [⟨moment, .prints span text⟩] ∧
      (printed before).size ≤ n ∧ n < (printed before).size + text.toUTF8.size ∧
      { m with sink.room := some n }.execute f p =
        .failed ⟨.outputFailed m.sink.reason, some span⟩ (Machine.atRest { m with
          store := moment.store
          readings := moment.readings
          depths := m.depths.merge p.depths
          sink.written := m.sink.written ++
            (printed ({ m with sink.room := some n }.events f p)).extract 0 n
          sink.room := some 0 }) := by
  let limited := { m with sink.room := some n }
  obtain ⟨before, moment, span, text, place, hes, fits, rfl, hanswer⟩ :=
    (execute_delivered f p limited).refused_of_full fun h => Nat.not_le_of_lt hover (h n rfl)
  have hsize : (printed (limited.events f p)).size =
      (printed before).size + text.toUTF8.size := by
    rw [hes, printed_append, ByteArray.size_append]
    exact congrArg _ (congrArg _ ByteArray.append_empty)
  refine ⟨before, moment, span, text, hes, fits n rfl, hsize ▸ hover, hanswer.trans ?_⟩
  have htake : limited.sink.take (printed (limited.events f p)) =
      ⟨m.sink.written ++ (printed (limited.events f p)).extract 0 n, some 0, m.sink.reason⟩ := by
    have hzero : n - (printed (limited.events f p)).size = 0 :=
      Nat.sub_eq_zero_of_le (Nat.le_of_lt hover)
    show (⟨_, some (n - (printed (limited.events f p)).size), m.sink.reason⟩ : Sink) = _
    rw [hzero]
  exact congrArg (fun sink => Answer.failed _ (Machine.atRest { m with
    store := moment.store
    readings := moment.readings
    depths := m.depths.merge p.depths
    sink := sink })) htake

end Limited

/-- **A failing sink cuts a run off at the byte it fails on.** Let a program run with a sink that takes
all output and with one that takes `n` bytes. The second one gets the first `n` bytes of what the
first one gets. If that is not more than `n` bytes, the runs have the same events and the same
answer, with the same machine but for the room that is left. If it is more, the second run ends
with an error of the output at the print statement whose text goes beyond these bytes: what
happened before is the same, and the machine is as it was when the text was about to be printed,
put to rest. -/
theorem sink_limit_cuts_off (p : Program) (f : Nat) (m : Machine) (n : Nat) :
    let full := { m with sink.room := none }
    let limited := { m with sink.room := some n }
    let out := printed (full.events f p)
    (∀ m' ∈ (full.execute f p).machine?, m'.sink.written = m.sink.written ++ out) ∧
    (∀ m' ∈ (limited.execute f p).machine?,
      m'.sink.written = m.sink.written ++ out.extract 0 (min n out.size)) ∧
    (out.size ≤ n →
      limited.events f p = full.events f p ∧
      limited.execute f p = (full.execute f p).mapMachine fun m' =>
        { m' with sink.room := some (n - out.size) }) ∧
    (n < out.size → ∃ before moment span text after,
      full.events f p = before ++ ⟨moment, .prints span text⟩ :: after ∧
      limited.events f p = before ++ [⟨moment, .prints span text⟩] ∧
      (printed before).size ≤ n ∧ n < (printed before).size + text.toUTF8.size ∧
      limited.execute f p = .failed ⟨.outputFailed m.sink.reason, some span⟩
        (Machine.atRest { m with
          store := moment.store
          readings := moment.readings
          depths := m.depths.merge p.depths
          sink.written := m.sink.written ++ out.extract 0 n
          sink.room := some 0 })) := by
  intro full limited out
  obtain ⟨⟨more, hmore⟩, hextract⟩ := printed_limited p f m n
  have hsize : out.size = (printed (limited.events f p)).size + (printed more).size := by
    rw [← ByteArray.size_append, ← printed_append]
    exact congrArg (fun es => (printed es).size) hmore.symm
  refine ⟨fun m' hm' => ?_, fun m' hm' => ?_, fun hle => ?_, fun hlt => ?_⟩
  · rw [(execute_delivered f p full).sink hm']
    rfl
  · rw [extract_min, ← hextract, (execute_delivered f p limited).sink hm']
    rfl
  · have hfits : (printed (limited.events f p)).size ≤ n := by omega
    obtain ⟨hevents, hanswer⟩ := execute_limited p f m n hfits
    refine ⟨hevents.symm, ?_⟩
    rw [hanswer]
    refine (Answer.mapMachine_undone fun m' hm' => ?_).symm
    have hroom : m'.sink.room = some (n - out.size) := by
      rw [(execute_delivered f p limited).sink hm', show out = _ from congrArg printed hevents]
      rfl
    show { m' with sink := { m'.sink with room := some (n - out.size) } } = m'
    rw [← hroom]
  · have hover : n < (printed (limited.events f p)).size := by
      by_contra hle
      have heq : out = printed (limited.events f p) :=
        congrArg printed (execute_limited p f m n (Nat.le_of_not_lt hle)).1
      rw [heq] at hlt
      exact hle hlt
    obtain ⟨before, moment, span, text, hes, hfits, hbeyond, hanswer⟩ := refused_limited p f m n hover
    refine ⟨before, moment, span, text, more, ?_, hes, hfits, hbeyond, ?_⟩
    · rw [← hmore, hes, List.append_assoc]
      rfl
    · rw [hanswer, hextract]

/-- A sink that takes seven bytes of two texts of five and four bytes. -/
theorem sink_limit_cuts_off_second_text :
    let text := CharStream.ofString "print true; print nil;"
    let m := Machine.initial fun _ => 0
    ∃ p, Program.ofParse (text.parse 0) = .ok p ∧
      7 < (printed ({ m with sink.room := none }.events 99 p)).size ∧
      ∃ span m', { m with sink.room := some 7 }.execute 99 p =
        .failed ⟨.outputFailed m.sink.reason, some span⟩ m' := by
  intro text m
  have hsize : ((Program.ofParse (text.parse 0)).toOption.any fun p =>
      decide (7 < (printed ({ m with sink.room := none }.events 99 p)).size)) = true := by
    decide +kernel
  cases hp : Program.ofParse (text.parse 0) with
  | error e =>
    rw [hp] at hsize
    cases hsize
  | ok p =>
    rw [hp] at hsize
    have hlt := of_decide_eq_true hsize
    obtain ⟨-, -, -, hcut⟩ := sink_limit_cuts_off p 99 m 7
    obtain ⟨before, moment, span, line, after, -, -, -, -, hanswer⟩ := hcut hlt
    exact ⟨p, rfl, hlt, span, _, hanswer⟩

end ClassScript
