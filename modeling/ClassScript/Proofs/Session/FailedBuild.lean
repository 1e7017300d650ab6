/-
# A text that cannot be built leaves no trace

A host sends requests to a session and gets a response to each: what was written, how it ended,
and what the value it asked for looks like (`Host.responses`). Put a text that cannot be built
anywhere between the requests: the responses to all others are the same, though the expressions
of all later texts have other identities.

For what a session makes of identities does not depend on them: two hosts that differ in
identities only (`Host.Renumbered`) get the same response to a request (`Host.Renumbered.step`).
What has been built before the text keeps its identities (`Host.Settled`), and what is built
behind it has later ones (`Host.Later`).

Key theorem: `failed_build_invisible`.
-/
import ClassScript.Proofs.Machine.Renumbering
import ClassScript.Proofs.Syntax.Later

namespace ClassScript

variable {α β : Type} {κ : Nat → Nat}

/-! ### Hosts -/

def Outcome.map (g : α → β) : Outcome α → Outcome β
  | .ok a => .ok (g a)
  | .unbuilt e => .unbuilt e
  | .failed e => .failed e
  | .broken b => .broken b
  | .exhausted => .exhausted

/-- The value that was got, if there is one. -/
def Outcome.values : Outcome (Option α) → List α
  | .ok a => a.toList
  | .unbuilt _ | .failed _ | .broken _ | .exhausted => []

/-- A value that a host can ask for without changing anything. It names the values that it holds by
their numbers. -/
inductive Question where
  | literal (l : Literal)
  | native (n : Native)
  | global (name : String)
  | classOf (object : Nat)
  | superclass (cls : Nat)
  | method (cls : Nat) (name : String)
  | same (left right : Nat)

/-- What a host can ask of a session. -/
inductive Request where
  | ask (q : Question)
  | run (fuel : Nat) (text : CharStream)
  | call (fuel : Nat) (name : String) (args : List Nat)
  | property (object : Nat) (name : String)
  | assign (object : Nat) (name : String) (value : Nat)
  | define (name : String) (value : Nat)
  | setMaxCalls (n : Nat)
  | limitOutput (bytes : Nat)

/-- What a host sees of a value. -/
structure Inspection where
  kind : Kind
  text : String
  truth : Bool
  arity : Option Nat
  deriving DecidableEq

/-- What a host gets for a request. -/
structure Response where
  output : ByteArray
  outcome : Outcome (Option Inspection)

/-- A host: the values it holds, in the order in which it got them, and its session. -/
structure Host where
  held : List Value := []
  session : Session

namespace Value

def inspect (v : Value) : Inspection := ⟨v.kind, v.display, v.isTrue, v.arity?⟩

/-- The class of an object. -/
def classOf? : Value → Option Value
  | .object _ c => some (.cls c)
  | _ => none

/-- The superclass of a class. -/
def superclass? : Value → Option Value
  | .cls ⟨_, b :: bs⟩ => some (.cls ⟨b, bs⟩)
  | _ => none

/-- A method of a class. -/
def method? (x : String) : Value → Option Value
  | .cls c => (c.method? x).map .function
  | _ => none

end Value

namespace Host

def initial (clock : Nat → Float) : Host := { session := .initial clock }

/-- The value with a number, or `nil` where the host holds none. -/
def get (h : Host) (i : Nat) : Value := h.held.getD i .nil

def value? (h : Host) : Question → Option Value
  | .literal l => some l.value
  | .native n => some (.native n)
  | .global x => h.session.machine.global? x
  | .classOf i => (h.get i).classOf?
  | .superclass i => (h.get i).superclass?
  | .method i x => (h.get i).method? x
  | .same i j => some (.bool ((h.get i).same (h.get j)))

/-- What becomes of a request, and the value it yields, if it yields one. -/
def perform (h : Host) : Request → Outcome (Option Value) × Session
  | .ask q => (.ok (h.value? q), h.session)
  | .run f text => (h.session.run f text).map (Outcome.map fun _ => none) id
  | .call f x args => (h.session.call f x (args.map h.get)).map (Outcome.map some) id
  | .property i x =>
    match h.get i with
    | .object object c =>
      match h.session.machine.store.property object c x with
      | some (v, store) => (.ok (some v), { h.session with machine.store := store })
      | none => (.ok none, h.session)
    | _ => (.ok none, h.session)
  | .assign i x j =>
    match h.get i with
    | .object object _ =>
      (.ok none,
        { h.session with machine.store := h.session.machine.store.setField object x (h.get j) })
    | _ => (.ok none, h.session)
  | .define x i => (.ok none, h.session.define x (h.get i))
  | .setMaxCalls n => (.ok none, h.session.setMaxCalls n)
  | .limitOutput bytes => (.ok none, h.session.limitOutput bytes)

/-- The response to a request, and the host that has got it. -/
def step (h : Host) (r : Request) : Response × Host :=
  let (outcome, session) := h.perform r
  let (output, session) := session.takeOutput
  (⟨output, outcome.map (Option.map Value.inspect)⟩, ⟨h.held ++ outcome.values, session⟩)

/-- The responses to some requests in turn. -/
def responses : Host → List Request → List Response
  | _, [] => []
  | h, r :: rs => (h.step r).1 :: responses (h.step r).2 rs

/-- The host behind some requests. -/
def after : Host → List Request → Host
  | h, [] => h
  | h, r :: rs => after (h.step r).2 rs

theorem after_append : ∀ (h : Host) (rs rs' : List Request),
    h.after (rs ++ rs') = (h.after rs).after rs'
  | _, [], _ => rfl
  | h, r :: rs, rs' => after_append (h.step r).2 rs rs'

/-- A request that changes no later response. -/
theorem responses_insert (r : Request) (rs : List Request) : ∀ {h : Host} (before : List Request),
    ((h.after before).step r).2.responses rs = (h.after before).responses rs →
    h.responses (before ++ r :: rs) =
      (h.responses (before ++ rs)).insertIdx before.length ((h.after before).step r).1
  | h, [], hrs => congrArg ((h.step r).1 :: ·) hrs
  | h, b :: before, hrs => congrArg ((h.step b).1 :: ·) (responses_insert r rs before hrs)

/-- What a host has got behind a request has been taken from the sink. -/
theorem written_step (h : Host) (r : Request) :
    (h.step r).2.session.machine.sink.written = .empty := rfl

end Host

/-! ### Two hosts -/

/-- The second outcome is the first one with another value, and the machines differ in identities
only. -/
structure Concluded (κ : Nat → Nat) (g : α → β) (x : Outcome α × Session)
    (x' : Outcome β × Session) : Prop where
  outcome : x'.1 = x.1.map g
  machine : x.2.machine.Renumbered κ x'.2.machine

theorem Concluded.map {α' β' : Type} {g : α → β} {g' : α' → β'} {p : α → α'} {p' : β → β'}
    {x : Outcome α × Session} {x' : Outcome β × Session} (h : Concluded κ g x x')
    (hg : ∀ a, p' (g a) = g' (p a)) :
    Concluded κ g' (x.map (Outcome.map p) id) (x'.map (Outcome.map p') id) := by
  refine ⟨?_, h.machine⟩
  rw [Prod.map_fst, Prod.map_fst, h.outcome]
  cases x.1 with
  | ok a => exact congrArg Outcome.ok (hg a)
  | unbuilt | failed | broken | exhausted => rfl

theorem Session.conclude_renumbered {s s' : Session} {g : α → β} {a : Answer α} {a' : Answer β}
    (hs : s.machine.Renumbered κ s'.machine) (ha : Answer.Renumbered κ g a a') :
    Concluded κ g (s.conclude a) (s'.conclude a') := by
  cases ha with
  | done hm => exact ⟨rfl, hm⟩
  | failed hm => exact ⟨rfl, hm⟩
  | broken b => exact ⟨rfl, hs⟩
  | exhausted => exact ⟨rfl, hs⟩

theorem Value.inspect_renumber (κ : Nat → Nat) (v : Value) :
    (v.renumber κ).inspect = v.inspect := by
  simp [Value.inspect]

/-- What a host sees of an outcome has no identities. -/
theorem Outcome.inspect_renumber (κ : Nat → Nat) (o : Outcome (Option Value)) :
    (o.map (Option.map (Value.renumber κ))).map (Option.map Value.inspect) =
      o.map (Option.map Value.inspect) := by
  cases o with
  | ok v =>
    have hinspect : Value.inspect ∘ Value.renumber κ = Value.inspect :=
      funext (Value.inspect_renumber κ)
    simp only [Outcome.map, Option.map_map, hinspect]
  | unbuilt | failed | broken | exhausted => rfl

theorem Outcome.values_map (g : α → β) (o : Outcome (Option α)) :
    (o.map (Option.map g)).values = o.values.map g := by
  cases o with
  | ok a => cases a <;> rfl
  | unbuilt | failed | broken | exhausted => rfl

namespace Host

/-- The hosts differ in identities only. -/
structure Renumbered (κ : Nat → Nat) (h h' : Host) : Prop where
  held : h'.held = h.held.map (Value.renumber κ)
  machine : h.session.machine.Renumbered κ h'.session.machine

/-- The hosts read the same text in a request, up to identities. -/
def Reads (κ : Nat → Nat) (h h' : Host) : Request → Prop
  | .run _ text => Program.SameBuild κ (Program.ofParse (text.parse h.session.nextId))
      (Program.ofParse (text.parse h'.session.nextId))
  | _ => True

namespace Renumbered

variable {h h' : Host}

theorem get (hh : Renumbered κ h h') (i : Nat) : h'.get i = (h.get i).renumber κ := by
  unfold Host.get
  rw [hh.held, List.getD_eq_getElem?_getD, List.getD_eq_getElem?_getD, List.getElem?_map]
  cases h.held[i]? <;> rfl

theorem value? (hh : Renumbered κ h h') (q : Question) :
    h'.value? q = (h.value? q).map (Value.renumber κ) := by
  cases q with
  | literal l => exact congrArg some (l.value_renumber κ).symm
  | native n => rfl
  | global x => exact hh.machine.global? x
  | classOf i =>
    simp only [Host.value?, hh.get]
    cases h.get i <;> rfl
  | superclass i =>
    simp only [Host.value?, hh.get]
    cases h.get i with
    | cls c =>
      obtain ⟨b, bs⟩ := c
      cases bs <;> rfl
    | nil | bool | number | text | native | function | object => rfl
  | method i x =>
    simp only [Host.value?, hh.get]
    cases h.get i with
    | cls c =>
      simp only [Value.renumber, Value.method?, Class.method?_renumber, Option.map_map]
      rfl
    | nil | bool | number | text | native | function | object => rfl
  | same i j =>
    simp only [Host.value?, hh.get, Value.same_renumber]
    rfl

/-- **A text is run in the same way.** -/
theorem run (hh : Renumbered κ h h') {f : Nat} {text : CharStream}
    (hr : Reads κ h h' (.run f text)) :
    Concluded κ id (h.session.run f text) (h'.session.run f text) := by
  unfold Session.run
  dsimp only [Reads] at hr ⊢
  generalize Program.ofParse (text.parse h.session.nextId) = x at hr ⊢
  generalize Program.ofParse (text.parse h'.session.nextId) = x' at hr ⊢
  cases hr with
  | ok hp => exact Session.conclude_renumbered hh.machine (hh.machine.execute hp f)
  | error e => exact ⟨rfl, hh.machine⟩

theorem call (hh : Renumbered κ h h') (f : Nat) (x : String) (args : List Nat) :
    Concluded κ (Value.renumber κ) (h.session.call f x (args.map h.get))
      (h'.session.call f x (args.map h'.get)) := by
  have hargs : args.map h'.get = (args.map h.get).map (Value.renumber κ) := by
    rw [List.map_map]
    exact List.map_congr_left fun i _ => hh.get i
  unfold Session.call
  rw [hh.machine.global?, hargs]
  cases h.session.machine.global? x with
  | none => exact ⟨rfl, hh.machine⟩
  | some callee =>
    exact Session.conclude_renumbered hh.machine ((runs_renumbered κ f).2.1 callee _ hh.machine)

/-- **What becomes of a request.** -/
theorem perform (hh : Renumbered κ h h') {r : Request} (hr : Reads κ h h' r) :
    Concluded κ (Option.map (Value.renumber κ)) (h.perform r) (h'.perform r) := by
  cases r with
  | ask q => exact ⟨congrArg Outcome.ok (hh.value? q), hh.machine⟩
  | run f text => exact (hh.run hr).map fun _ => rfl
  | call f x args => exact (hh.call f x args).map fun _ => rfl
  | property i x =>
    simp only [Host.perform, hh.get, hh.machine.store]
    cases h.get i with
    | object object c =>
      simp only [Value.renumber, Store.property_renumber]
      cases h.session.machine.store.property object c x with
      | none => exact ⟨rfl, hh.machine⟩
      | some found => exact ⟨rfl, hh.machine.withStore found.2⟩
    | nil | bool | number | text | native | function | cls => exact ⟨rfl, hh.machine⟩
  | assign i x j =>
    simp only [Host.perform, hh.get, hh.machine.store, Store.setField_renumber]
    cases h.get i with
    | object object c => exact ⟨rfl, hh.machine.withStore _⟩
    | nil | bool | number | text | native | function | cls => exact ⟨rfl, hh.machine⟩
  | define x i =>
    simp only [Host.perform, hh.get, Session.define, Machine.defineGlobal, hh.machine.store,
      Store.define_renumber]
    exact ⟨rfl, hh.machine.withStore _⟩
  | setMaxCalls n => exact ⟨rfl, hh.machine.withMaxCalls n⟩
  | limitOutput bytes =>
    simp only [Host.perform, Session.limitOutput, hh.machine.sink]
    exact ⟨rfl, hh.machine.withSink _⟩

/-- **The response to a request is the same,** and the hosts behind it differ in identities only. -/
theorem step (hh : Renumbered κ h h') {r : Request} (hr : Reads κ h h' r) :
    (h'.step r).1 = (h.step r).1 ∧ Renumbered κ (h.step r).2 (h'.step r).2 := by
  have hp := hh.perform hr
  refine ⟨?_, ?_, ?_⟩
  · simp only [Host.step, Session.takeOutput, hp.outcome, hp.machine.sink,
      Outcome.inspect_renumber]
  · simp only [Host.step, Session.takeOutput, hp.outcome, hh.held, Outcome.values_map,
      List.map_append]
  · simp only [Host.step, Session.takeOutput, hp.machine.sink]
    exact hp.machine.withSink _

end Renumbered

/-! ### Before the text -/

/-- The counter of identities behind a request. -/
def counter (n : Nat) : Request → Nat
  | .run _ text => (text.parse n).nextId
  | _ => n

theorem le_counter (n : Nat) (r : Request) : n ≤ counter n r := by
  cases r with
  | run f text => exact (text.parse_fresh n).le
  | ask | call | property | assign | define | setMaxCalls | limitOutput => exact Nat.le_refl n

theorem nextId_step (h : Host) (r : Request) :
    (h.step r).2.session.nextId = counter h.session.nextId r := by
  have hconclude : ∀ {α : Type} (s : Session) (a : Answer α), (s.conclude a).2.nextId = s.nextId :=
    fun s a => by cases a <;> rfl
  show (h.perform r).2.nextId = _
  cases r with
  | run f text =>
    simp only [perform, Session.run, counter, Prod.map]
    split
    · exact hconclude _ _
    · rfl
  | call f x args =>
    simp only [perform, Session.call, counter, Prod.map]
    split
    · exact hconclude _ _
    · rfl
  | property i x =>
    simp only [perform, counter]
    split
    · split <;> rfl
    · rfl
  | assign i x j =>
    simp only [perform, counter]
    split <;> rfl
  | ask | define | setMaxCalls | limitOutput => rfl

/-- The identities that the host has to do with have all been given out: others may be exchanged. -/
def Settled (h : Host) : Prop :=
  ∀ ⦃κ : Nat → Nat⦄, Function.Injective κ → (∀ i < h.session.nextId, κ i = i) → Renumbered κ h h

theorem settled_initial (clock : Nat → Float) : (initial clock).Settled := by
  intro κ hκ hfix
  -- functions of the language have no code
  have hstore : (Machine.initial clock).store.renumber κ = (Machine.initial clock).store := by
    simp [Machine.initial, Store.newFrame, Store.renumber, Frame.renumber, NameTable.map_ofList,
      Function.comp_def, Value.renumber]
  have hmachine : Machine.Renumbered κ (.initial clock) (.renumber κ {} (.initial clock)) :=
    ⟨.empty⟩
  rw [Machine.renumber, hstore] at hmachine
  exact ⟨rfl, hmachine⟩

/-- A text whose identities all stay. -/
theorem reads_self {h : Host} {r : Request} (hκ : Function.Injective κ)
    (hfix : ∀ i < counter h.session.nextId r, κ i = i) : Reads κ h h r := by
  cases r with
  | run f text =>
    refine Program.ofParse_mapIds hκ rfl (Stmt.mapIdsOf_fixed fun i hi => hfix i ?_).symm
    exact ((text.parse_fresh _).mem i hi).2
  | ask | call | property | assign | define | setMaxCalls | limitOutput => trivial

/-- **A request settles what it gives out.** -/
theorem Settled.step {h : Host} (hs : h.Settled) (r : Request) : (h.step r).2.Settled := by
  intro κ hκ hfix
  rw [nextId_step] at hfix
  have hh : Renumbered κ h h := hs hκ fun i hi => hfix i (Nat.lt_of_lt_of_le hi (le_counter _ r))
  exact (hh.step (reads_self hκ hfix)).2

theorem Settled.after : ∀ {h : Host} (rs : List Request), h.Settled → (h.after rs).Settled
  | _, [], hs => hs
  | _, r :: rs, hs => Settled.after rs (hs.step r)

theorem written_after : ∀ {h : Host} (rs : List Request),
    h.session.machine.sink.written = .empty → (h.after rs).session.machine.sink.written = .empty
  | _, [], hw => hw
  | h, r :: rs, _ => written_after rs (h.written_step r)

/-! ### Behind the text -/

/-- The identities from `n` on are later by `k`. -/
def shiftFrom (n k i : Nat) : Nat := if i < n then i else i + k

theorem shiftFrom_injective (n k : Nat) : Function.Injective (shiftFrom n k) := by
  intro i j h
  unfold shiftFrom at h
  split at h <;> split at h <;> omega

/-- The second host has given out `k` identities more, behind the first `n`. -/
structure Later (n k : Nat) (h h' : Host) : Prop where
  renumbered : Renumbered (shiftFrom n k) h h'
  le : n ≤ h.session.nextId
  nextId : h'.session.nextId = h.session.nextId + k

namespace Later

variable {n k : Nat} {h h' : Host}

theorem reads (hh : Later n k h h') (r : Request) : Reads (shiftFrom n k) h h' r := by
  cases r with
  | run f text =>
    simp only [Reads, hh.nextId, CharStream.parse_later]
    refine Program.ofParse_mapIds (shiftFrom_injective n k) (Parse.errors_later k _) ?_
    rw [Parse.trees_later]
    refine Stmt.mapIdsOf_congr fun i hi => ?_
    have hle := Nat.le_trans hh.le ((text.parse_fresh _).mem i hi).1
    exact (if_neg (Nat.not_lt.mpr hle)).symm
  | ask | call | property | assign | define | setMaxCalls | limitOutput => trivial

theorem counter_add (m : Nat) (r : Request) : counter (m + k) r = counter m r + k := by
  cases r with
  | run f text => exact congrArg Parse.nextId (text.parse_later k m)
  | ask | call | property | assign | define | setMaxCalls | limitOutput => rfl

/-- **The response to a later request is the same.** -/
theorem step (hh : Later n k h h') (r : Request) :
    (h'.step r).1 = (h.step r).1 ∧ Later n k (h.step r).2 (h'.step r).2 := by
  obtain ⟨hresponse, hrest⟩ := hh.renumbered.step (hh.reads r)
  refine ⟨hresponse, hrest, ?_, ?_⟩
  · rw [nextId_step]
    exact Nat.le_trans hh.le (le_counter _ r)
  · rw [nextId_step, nextId_step, hh.nextId, counter_add]

/-- **The responses to all later requests are the same.** -/
theorem responses : ∀ {h h' : Host} (rs : List Request), Later n k h h' →
    h'.responses rs = h.responses rs ∧ Later n k (h.after rs) (h'.after rs)
  | _, _, [], hh => ⟨rfl, hh⟩
  | h, h', r :: rs, hh => by
    obtain ⟨hresponse, hrest⟩ := hh.step r
    obtain ⟨hresponses, hafter⟩ := responses rs hrest
    exact ⟨by rw [Host.responses, Host.responses, hresponse, hresponses], hafter⟩

end Later

end Host

/-- A text that cannot be built cannot be built with another counter either. -/
theorem Program.ofParse_error {text : CharStream} {firstId : Nat} {e : BuildError}
    (h : Program.ofParse (text.parse firstId) = .error e) (n : Nat) :
    Program.ofParse (text.parse n) = .error e := by
  have hfirst : ∀ k, Program.SameBuild (· + k) (Program.ofParse (text.parse 0))
      (Program.ofParse (text.parse k)) := fun k => by
    rw [← Nat.zero_add k, CharStream.parse_later, Nat.zero_add]
    exact Program.ofParse_mapIds (fun i j hij => Nat.add_right_cancel hij) (Parse.errors_later k _)
      (Parse.trees_later k _)
  have hn := hfirst n
  have h0 := hfirst firstId
  rw [h] at h0
  generalize Program.ofParse (text.parse 0) = x at h0 hn
  cases h0
  generalize Program.ofParse (text.parse n) = x' at hn
  cases hn
  rfl

namespace Host

/-- The response to a text that cannot be built, and the host behind it. -/
theorem step_unbuilt {h : Host} {text : CharStream} {e : BuildError}
    (hw : h.session.machine.sink.written = .empty)
    (he : Program.ofParse (text.parse h.session.nextId) = .error e) (f : Nat) :
    h.step (.run f text) = (⟨.empty, .unbuilt e⟩,
      { h with session.nextId := h.session.nextId + (text.parse 0).nextId }) := by
  have hnext : (text.parse h.session.nextId).nextId =
      h.session.nextId + (text.parse 0).nextId := by
    rw [← Nat.zero_add h.session.nextId, CharStream.parse_later, Nat.zero_add]
    exact Nat.add_comm _ _
  have hsink : { h.session.machine with sink.written := .empty } = h.session.machine := by
    rw [← hw]
  unfold step perform Session.run
  simp [he, hnext, Outcome.map, Outcome.values, Session.takeOutput, hw, hsink]

/-- **Behind a text that cannot be built the identities are later.** -/
theorem Settled.later {h : Host} (hs : h.Settled) (k : Nat) :
    Later h.session.nextId k h { h with session.nextId := h.session.nextId + k } := by
  have hh := hs (shiftFrom_injective h.session.nextId k) fun i hi => if_pos hi
  exact ⟨⟨hh.held, hh.machine⟩, Nat.le_refl _, rfl⟩

end Host

/-- **A text that cannot be built is invisible to the rest of the session.** Wherever it is put
between the requests of a host, the responses to all others stay the same, and nothing is written.
Only the counter of identities is further from then on. -/
theorem failed_build_invisible {text : CharStream} {firstId : Nat} {e : BuildError}
    (he : Program.ofParse (text.parse firstId) = .error e) (clock : Nat → Float)
    (before after : List Request) (f : Nat) :
    let h := Host.initial clock
    h.responses (before ++ .run f text :: after) =
      (h.responses (before ++ after)).insertIdx before.length ⟨.empty, .unbuilt e⟩ ∧
    (h.after (before ++ .run f text :: after)).session.nextId =
      (h.after (before ++ after)).session.nextId + (text.parse 0).nextId := by
  intro h
  have hs : (h.after before).Settled := (Host.settled_initial clock).after before
  have hw : (h.after before).session.machine.sink.written = .empty := Host.written_after before rfl
  have hstep := Host.step_unbuilt hw (Program.ofParse_error he _) f
  obtain ⟨hresponses, hafter⟩ := (hs.later (text.parse 0).nextId).responses after
  constructor
  · rw [Host.responses_insert _ _ before (hstep ▸ hresponses), hstep]
  · rw [Host.after_append, Host.after_append, Host.after, hstep]
    exact hafter.nextId

/-- Between a text that leaves a function in a scope and one that calls it stands a text with an
error, in which identities are given out. -/
theorem failed_build_invisible_call :
    let text := CharStream.ofString "{ var b = nil; print b == b; print b ==; }"
    let first := CharStream.ofString "var g; { var a = true; fun f() { return a; } g = f; }"
    let second := CharStream.ofString "{ var c = nil; print g() == c; }"
    let h := Host.initial fun _ => 0
    ∃ e, Program.ofParse (text.parse 0) = .error e ∧ 0 < (text.parse 0).nextId ∧
      (h.responses [.run 99 first, .run 99 second, .call 99 "g" []]).map (·.output) =
        [.empty, "false\n".toUTF8, .empty] ∧
      h.responses [.run 99 first, .run 99 text, .run 99 second, .call 99 "g" []] =
        (h.responses [.run 99 first, .run 99 second, .call 99 "g" []]).insertIdx 1
          ⟨.empty, .unbuilt e⟩ := by
  intro text first second h
  have hfails : (Program.ofParse (text.parse 0)).isOk = false := by decide +kernel
  have hids : 0 < (text.parse 0).nextId := by decide +kernel
  have houtput : (h.responses [.run 99 first, .run 99 second, .call 99 "g" []]).map (·.output) =
      [.empty, "false\n".toUTF8, .empty] := by decide +kernel
  cases he : Program.ofParse (text.parse 0) with
  | ok p =>
    rw [he] at hfails
    cases hfails
  | error e =>
    exact ⟨e, rfl, hids, houtput, (failed_build_invisible he (fun _ => 0) [.run 99 first]
      [.run 99 second, .call 99 "g" []] 99).1⟩

end ClassScript
