/-
# What reaches the sink

The sink gets what the events of a run print, in that order and as far as it has room
(`Sink.take`). If there is room for all of it, output does not make the run fail. If not,
then the last event of the run is the print statement for which there was no room any more,
and the run ends there with an error at this statement (`Delivered`): nothing happens after
it, in whatever calls, blocks and loops it stands.

Key theorem: `traced_delivers`.
-/
import ClassScript.Proofs.Machine.Congruence

namespace ClassScript

open Traced

/-! ### Sinks -/

/-- No more can be taken than there is. -/
theorem extract_eq_self {a : ByteArray} {n : Nat} (h : a.size ≤ n) : a.extract 0 n = a := by
  apply ByteArray.ext
  rw [ByteArray.data_extract]
  exact Array.extract_eq_self_of_le h

theorem extract_min (a : ByteArray) (n : Nat) : a.extract 0 (min n a.size) = a.extract 0 n := by
  by_cases h : a.size ≤ n
  · rw [Nat.min_eq_right h, extract_eq_self h, extract_eq_self (Nat.le_refl _)]
  · rw [Nat.min_eq_left (by omega)]

/-- What comes behind does not matter if it is not reached. -/
theorem extract_append_of_le {a b : ByteArray} {n : Nat} (h : n ≤ a.size) :
    (a ++ b).extract 0 n = a.extract 0 n := by
  have hnone : n - a.size = 0 := by omega
  rw [ByteArray.extract_append, hnone, Nat.zero_sub, ByteArray.extract_same, ByteArray.append_empty]

namespace Sink

/-- There is room for all of the bytes. -/
def Fits (s : Sink) (bytes : ByteArray) : Prop := ∀ n, s.room = some n → bytes.size ≤ n

/-- The sink that got the bytes and took what it had room for. -/
def take (s : Sink) (bytes : ByteArray) : Sink :=
  match s.room with
  | none => { s with written := s.written ++ bytes }
  | some n =>
    { s with written := s.written ++ bytes.extract 0 n, room := some (n - bytes.size) }

variable {s : Sink} {a b : ByteArray}

@[simp] theorem take_reason (s : Sink) (a : ByteArray) : (s.take a).reason = s.reason := by
  unfold take
  cases s.room <;> rfl

theorem take_empty (s : Sink) : s.take .empty = s := by
  obtain ⟨written, room, reason⟩ := s
  cases room with
  | none => simp [take]
  | some n =>
    have hall : ByteArray.empty.extract 0 n = .empty := extract_eq_self (Nat.zero_le n)
    simp [take, hall]

theorem fits_empty (s : Sink) : s.Fits .empty := fun _ _ => Nat.zero_le _

theorem take_take (h : s.Fits a) (b : ByteArray) : (s.take a).take b = s.take (a ++ b) := by
  unfold take
  cases hr : s.room with
  | none => simp [ByteArray.append_assoc]
  | some n =>
    have ha := h n hr
    have hall : a.extract 0 n = a := extract_eq_self ha
    simp only [ByteArray.extract_append, ByteArray.size_append, Nat.zero_sub, hall,
      ByteArray.append_assoc, Nat.sub_sub]

theorem take_written (h : s.Fits a) : (s.take a).written = s.written ++ a := by
  unfold take
  cases hr : s.room with
  | none => rfl
  | some n => simp only [extract_eq_self (h n hr)]

theorem written_take (s : Sink) (a : ByteArray) : ∃ rest, (s.take a).written = s.written ++ rest := by
  unfold take
  cases s.room with
  | none => exact ⟨a, rfl⟩
  | some n => exact ⟨a.extract 0 n, rfl⟩

theorem fits_append : s.Fits (a ++ b) ↔ s.Fits a ∧ (s.take a).Fits b := by
  unfold Fits take
  cases hr : s.room with
  | none => simp
  | some n => simp only [Option.some.injEq, forall_eq', ByteArray.size_append]; omega

theorem write_of_fits {text : String} (h : s.Fits text.toUTF8) :
    s.write text = (none, s.take text.toUTF8) := by
  unfold write take
  cases hr : s.room with
  | none => rfl
  | some n =>
    have hle := h n hr
    simp only [if_pos hle, extract_eq_self hle]

theorem write_of_not_fits {text : String} (h : ¬ s.Fits text.toUTF8) :
    s.write text = (some s.reason, s.take text.toUTF8) := by
  unfold write take
  cases hr : s.room with
  | none => exact absurd (fun n hn => by simp [hr] at hn) h
  | some n =>
    have hlt : ¬ text.toUTF8.size ≤ n := fun hle => h fun k hk => by
      rw [hr, Option.some.injEq] at hk
      exact hk ▸ hle
    have hzero : n - text.toUTF8.size = 0 := by omega
    simp only [if_neg hlt, hzero]

end Sink

/-! ### Runs -/

variable {α β : Type} {m m' : Machine} {t : Traced α} {Q Q' : Span → Option Span → Prop}

/-- How what is printed by a run that started with the machine `m` got to the sink. `Q` says which
place an error of the output has, given the place of the print statement. -/
inductive Delivered (Q : Span → Option Span → Prop) (m : Machine) : List Event × Answer α → Prop
  | done {es : List Event} {a : α} {m' : Machine} (fits : m.sink.Fits (printed es))
    (sink : m'.sink = m.sink.take (printed es)) : Delivered Q m (es, .done a m')
  | failed {es : List Event} {e : RuntimeError} {m' : Machine} (fits : m.sink.Fits (printed es))
    (sink : m'.sink = m.sink.take (printed es)) (cause : ∀ reason, e.fault ≠ .outputFailed reason) :
    Delivered Q m (es, .failed e m')
  | broken {es : List Event} {b : Breach} (fits : m.sink.Fits (printed es)) :
    Delivered Q m (es, .broken b)
  | exhausted {es : List Event} (fits : m.sink.Fits (printed es)) : Delivered Q m (es, .exhausted)
  /-- The last text does not fit. -/
  | refused {es : List Event} {moment : Moment} {span : Span} {text : String} {place : Option Span}
    (fits : m.sink.Fits (printed es))
    (full : ¬ m.sink.Fits (printed (es ++ [⟨moment, .prints span text⟩]))) (at_span : Q span place) :
    Delivered Q m (es ++ [⟨moment, .prints span text⟩],
      .failed ⟨.outputFailed m.sink.reason, place⟩
        { m with
          store := moment.store
          readings := moment.readings
          sink := m.sink.take (printed (es ++ [⟨moment, .prints span text⟩])) })

def Delivers (Q : Span → Option Span → Prop) (t : Traced α) : Prop := ∀ m, Delivered Q m (t m)

/-- What a run keeps and what a change of the store, the clock and the sink replaces is all there is. -/
theorem Kept.replaced (h : Kept m m') (store : Store) (readings : Nat) (sink : Sink) :
    { m' with store, readings, sink } = { m with store, readings, sink } := by
  obtain ⟨hframe, hdepths, hcalls, hmax, hclock⟩ := h
  simp only [hframe, hdepths, hcalls, hmax, hclock]

theorem Answer.machine?_mapMachine (f : Machine → Machine) (x : Answer α) :
    (x.mapMachine f).machine? = x.machine?.map f := by
  cases x <;> rfl

/-- A plain step leaves the sink alone. -/
theorem Plain.sink {r : Run α} (h : Plain r) (hm : m' ∈ (r m).machine?) : m'.sink = m.sink := by
  have hfree : r m = (r m).mapMachine _ := h.free m m.calls m.maxCalls m.sink
  have hmap := congrArg Answer.machine? hfree
  rw [Answer.machine?_mapMachine, Option.mem_def.mp hm, Option.map_some, Option.some.injEq] at hmap
  rw [hmap]

theorem View.printed_see (view : View) (before after : Moment) :
    printed (view.see before after) = .empty := by
  refine printed_eq_empty fun e he => ?_
  unfold Event.printed
  rcases View.mem_see he with ⟨frame, h⟩ | ⟨frame, parent, methods, h⟩
  · rw [h]
  · rw [h]

namespace Delivers

theorem seen {r : Run α} (view : View) (hr : Plain r) : Delivers Q (seen view r) := by
  intro m
  unfold Traced.seen
  have hsink : ∀ m' ∈ (r m).machine?, m'.sink = m.sink := fun _ => hr.sink
  have hcause : ∀ e m', r m = .failed e m' → e.fault.ofLimit = false := fun _ _ => hr.within
  have hnone : m.sink.Fits (printed []) := m.sink.fits_empty
  have hsame : ∀ {m' : Machine}, m'.sink = m.sink → m'.sink = m.sink.take (printed []) := fun h =>
    h.trans m.sink.take_empty.symm
  generalize r m = x at hsink hcause
  cases x with
  | done a m' =>
    have hprinted := view.printed_see m.moment m'.moment
    refine .done ?_ ?_
    · rw [hprinted]
      exact hnone
    · rw [hprinted]
      exact hsame (hsink m' rfl)
  | failed e m' =>
    refine .failed hnone (hsame (hsink m' rfl)) fun reason hreason => ?_
    have hwithin := hcause e m' rfl
    rw [hreason] at hwithin
    cases hwithin
  | broken b => exact .broken hnone
  | exhausted => exact .exhausted hnone

/-- **One run after the other.** -/
theorem bind {g : α → Traced β} (hs : Steady t.run) (ht : Delivers Q t) (hg : ∀ a, Delivers Q (g a)) :
    Delivers Q (t >>= g) := by
  intro m
  have hm := ht m
  have hkeeps := hs m
  show Delivered Q m (Traced.bind t g m)
  unfold Traced.bind
  unfold Traced.run at hkeeps
  generalize t m = x at hm hkeeps
  cases hm with
  | failed fits sink cause => exact .failed fits sink cause
  | broken fits => exact .broken fits
  | exhausted fits => exact .exhausted fits
  | refused fits full at_span => exact .refused fits full at_span
  | done fits sink =>
    rename_i es a m₁
    have hkept : Kept m m₁ := by
      cases hkeeps with
      | done hkept => exact hkept
    have hmore : ∀ {es'}, m₁.sink.Fits (printed es') ↔ m.sink.Fits (printed (es ++ es')) := by
      intro es'
      rw [printed_append, Sink.fits_append, sink]
      exact (and_iff_right fits).symm
    have htake : ∀ {es'}, m₁.sink.take (printed es') = m.sink.take (printed (es ++ es')) := by
      intro es'
      rw [printed_append, sink, Sink.take_take fits]
    have hm₁ := hg a m₁
    dsimp only
    generalize g a m₁ = y at hm₁
    cases hm₁ with
    | done fits' sink' => exact .done (hmore.mp fits') (sink'.trans htake)
    | failed fits' sink' cause => exact .failed (hmore.mp fits') (sink'.trans htake) cause
    | broken fits' => exact .broken (hmore.mp fits')
    | exhausted fits' => exact .exhausted (hmore.mp fits')
    | refused fits' full at_span =>
      rename_i es' moment span text place
      have hreason : m₁.sink.reason = m.sink.reason := by rw [sink, Sink.take_reason]
      rw [hreason, hkept.replaced, htake, ← List.append_assoc]
      exact .refused (hmore.mp fits') (fun h => full (hmore.mpr (by rwa [← List.append_assoc]))) at_span

theorem located (s : Span) (ht : Delivers Q t)
    (hQ : ∀ span place, Q span place → Q' span (some (place.getD s))) :
    Delivers Q' (t.located s) := by
  intro m
  have hm := ht m
  unfold Traced.located Run.located Traced.run
  generalize t m = x at hm
  cases hm with
  | done fits sink => exact .done fits sink
  | failed fits sink cause => exact .failed fits sink cause
  | broken fits => exact .broken fits
  | exhausted fits => exact .exhausted fits
  | refused fits full at_span => exact .refused fits full (hQ _ _ at_span)

theorem inFrame (frame : Nat) (ht : Delivers Q t) : Delivers Q (t.inFrame frame) := by
  intro m
  have hm := ht { m with frame }
  unfold Traced.inFrame Run.inFrame Traced.run
  dsimp only
  generalize t { m with frame } = x at hm
  cases hm with
  | done fits sink => exact .done fits sink
  | failed fits sink cause => exact .failed fits sink cause
  | broken fits => exact .broken fits
  | exhausted fits => exact .exhausted fits
  | refused fits full at_span => exact .refused fits full at_span

/-- An event that prints nothing, before all others. -/
theorem noted {e : Event} {x : List Event × Answer α} (he : e.printed = .empty)
    (h : Delivered Q m x) : Delivered Q m (e :: x.1, x.2) := by
  have hprinted : ∀ es, printed (e :: es) = printed es := fun es => by
    rw [printed, he, ByteArray.empty_append]
  cases h with
  | done fits sink => exact .done (by rwa [hprinted]) (by rwa [hprinted])
  | failed fits sink cause => exact .failed (by rwa [hprinted]) (by rwa [hprinted]) cause
  | broken fits => exact .broken (by rwa [hprinted])
  | exhausted fits => exact .exhausted (by rwa [hprinted])
  | refused fits full at_span =>
    have h := Delivered.refused (α := α) (Q := Q) (m := m) (by rwa [hprinted])
      (by rwa [List.cons_append, hprinted]) at_span
    rw [List.cons_append, hprinted] at h
    exact h

/-- The run of a call, seen from outside. -/
theorem counted {x : List Event × Answer α} (h : Delivered Q { m with calls := m.calls + 1 } x) :
    Delivered Q m (x.1, x.2.mapMachine fun m' => { m' with calls := m'.calls - 1 }) := by
  cases h with
  | done fits sink => exact .done fits sink
  | failed fits sink cause => exact .failed fits sink cause
  | broken fits => exact .broken fits
  | exhausted fits => exact .exhausted fits
  | refused fits full at_span => exact .refused fits full at_span

/-- A print statement: an error of its output is located at it. -/
theorem print (span : Span) {t : Traced Value} (hs : Steady t.run)
    (ht : Delivers (fun span place => place = some span) t) :
    Delivers (fun span place => place = some span) (Traced.located span (printing span t)) := by
  -- up to here the place of the text at hand may be open
  let Open (s : Span) (place : Option Span) : Prop := place = some s ∨ s = span ∧ place = none
  have hopen : Delivers Open t := by
    intro m
    have hm := ht m
    generalize t m = x at hm
    cases hm with
    | done fits sink => exact .done fits sink
    | failed fits sink cause => exact .failed fits sink cause
    | broken fits => exact .broken fits
    | exhausted fits => exact .exhausted fits
    | refused fits full at_span => exact .refused fits full (.inl at_span)
  have hline : ∀ text, Delivers Open (Traced.printLine span text) := by
    intro text m
    have hprinted : printed [⟨m.moment, .prints span (text ++ "\n")⟩] = (text ++ "\n").toUTF8 :=
      ByteArray.append_empty
    unfold Traced.printLine Run.printLine
    by_cases hfits : m.sink.Fits (text ++ "\n").toUTF8
    · rw [Sink.write_of_fits hfits]
      exact .done (by rwa [hprinted]) (by rw [hprinted])
    · rw [Sink.write_of_not_fits hfits]
      have hempty : m.sink.Fits (printed []) := m.sink.fits_empty
      have h := Delivered.refused (α := Unit) (Q := Open) hempty (by rwa [List.nil_append, hprinted])
        (.inr ⟨rfl, rfl⟩)
      rw [List.nil_append, hprinted] at h
      exact h
  refine located span (bind hs hopen fun v => bind (.printLine v.display) (hline v.display) fun _ =>
    seen .nothing (.pure _)) ?_
  rintro s place (rfl | ⟨rfl, rfl⟩)
  · rfl
  · rfl

theorem closed : Closed fun _ {_} t => Delivers (fun span place => place = some span) t where
  seen view hr := seen view hr
  print span hs ht := print span hs ht
  bind hs ht hg := bind hs ht hg
  located s ht := located s ht fun span place h => by rw [h]; rfl
  inFrame frame ht := inFrame frame ht
  visit within n ht := fun m => noted rfl (ht m)
  asCall callee args _ ht := by
    intro m
    unfold Traced.asCall Run.asCall
    by_cases hdeep : m.maxCalls ≤ m.calls
    · rw [if_pos hdeep, if_pos hdeep]
      exact .failed m.sink.fits_empty m.sink.take_empty.symm (by simp)
    · rw [if_neg hdeep, if_neg hdeep]
      exact noted rfl (counted (ht { m with calls := m.calls + 1 }))

end Delivers

/-- **The sink gets what is printed, and the run ends at the text that it has no room for.** -/
theorem traced_delivers (f : Nat) (program : List Stmt) :
    Delivers (fun span place => place = some span) (tracedAll f program) :=
  Delivers.closed.program f program

theorem Delivered.sink {x : List Event × Answer α} (h : Delivered Q m x) (hm : m' ∈ x.2.machine?) :
    m'.sink = m.sink.take (printed x.1) := by
  cases h with
  | done fits sink | failed fits sink =>
    cases hm
    exact sink
  | broken fits | exhausted fits => cases hm
  | refused fits full at_span =>
    cases hm
    rfl

/-- Where not all that was printed fits, the last text is the one that was refused. -/
theorem Delivered.refused_of_full {es : List Event} {x : Answer α} (h : Delivered Q m (es, x))
    (hfull : ¬ m.sink.Fits (printed es)) : ∃ before moment span text place,
      es = before ++ [⟨moment, .prints span text⟩] ∧ m.sink.Fits (printed before) ∧ Q span place ∧
      x = .failed ⟨.outputFailed m.sink.reason, place⟩
        { m with
          store := moment.store
          readings := moment.readings
          sink := m.sink.take (printed es) } := by
  cases h with
  | done fits | failed fits | broken fits | exhausted fits => exact absurd fits hfull
  | refused fits full at_span => exact ⟨_, _, _, _, _, rfl, fits, at_span, rfl⟩

/-- **The output of a program.** -/
theorem execute_delivered (f : Nat) (p : Program) (m : Machine) :
    Delivered (fun span place => place = some span)
      (Machine.atRest { m with depths := m.depths.merge p.depths })
      (m.events f p, m.execute f p) := by
  rw [Machine.execute_eq]
  unfold Machine.events
  have hm := traced_delivers f p.body { m with depths := m.depths.merge p.depths }
  generalize tracedAll f p.body _ = x at hm
  cases hm with
  | done fits sink => exact .done fits sink
  | failed fits sink cause => exact .failed fits sink cause
  | broken fits => exact .broken fits
  | exhausted fits => exact .exhausted fits
  | refused fits full at_span => exact .refused fits full at_span

end ClassScript
