/-
# Agreement of runs

A run of the machine and a run under lexical scoping agree (`Agree`) if they end in the
same way: both with a result, both with the same error, or both out of fuel. Afterwards
the machine and the state match in a world that has grown, and the current frame is the
one it was.

Agreement goes through all that runs are made of, and the operations of the machine agree
with their counterparts: `readName_agrees` and its siblings.
-/
import ClassScript.Proofs.Lexical.Match

namespace ClassScript
namespace Lexical

open Scope

variable {α β γ δ : Type} {ps : List Program} {W W' : World} {φ : Nat} {xs ys : List String}

/-- The answers of two runs that started in the world `W`, with the frame `φ` as the current one.
The names `xs` may have been declared in that frame. -/
inductive Agree (ps : List Program) (W : World) (φ : Nat) (xs : List String)
    (A : World → α → β → Prop) : ClassScript.Answer α → Answer β → Prop
  | done {W' : World} {a : α} {b : β} {m : Machine} {σ : State} (grows : Grows φ xs W W')
    (hm : Match ps W' m σ) (frame : m.frame = φ) (h : A W' a b) :
    Agree ps W φ xs A (.done a m) (.done b σ)
  | failed {W' : World} {e : RuntimeError} {m : Machine} {σ : State} (grows : Grows φ xs W W')
    (hm : Match ps W' m σ) (frame : m.frame = φ) : Agree ps W φ xs A (.failed e m) (.failed e σ)
  | exhausted : Agree ps W φ xs A .exhausted .exhausted

theorem machine_bind_done {r : ClassScript.Run α} {a : α} {m m' : Machine} (h : r m = .done a m')
    (f : α → ClassScript.Run β) : (r >>= f) m = f a m' := by
  show ClassScript.Run.bind r f m = f a m'
  unfold ClassScript.Run.bind
  rw [h]

theorem Run.bind_done {R : Run α} {a : α} {σ σ' : State} (h : R σ = .done a σ') (F : α → Run β) :
    (R >>= F) σ = F a σ' := by
  show Run.bind R F σ = F a σ'
  unfold Run.bind
  rw [h]

/-- A machine matches whatever its current frame is. -/
theorem Match.inFrame {m : Machine} {σ : State} (h : Match ps W m σ) (φ : Nat) :
    Match ps W { m with frame := φ } σ :=
  ⟨h.texts, h.built, h.depths, h.store, h.sink, h.calls, h.maxCalls, h.clock, h.readings⟩

/-- A match after a change of the store and the state that touches nothing else. -/
theorem Match.withStore {m : Machine} {σ σ' : State} {s : Store} (h : Match ps W m σ)
    (hg : W'.texts = W.texts) (hs : StoreMatch W' s σ') (hsink : σ'.sink = σ.sink)
    (hcalls : σ'.calls = σ.calls) (hmax : σ'.maxCalls = σ.maxCalls) (hclock : σ'.clock = σ.clock)
    (hreadings : σ'.readings = σ.readings) : Match ps W' { m with store := s } σ' :=
  ⟨hg.trans h.texts, hg ▸ h.built, hg ▸ h.depths, hs, hsink.trans h.sink, hcalls.trans h.calls,
    hmax.trans h.maxCalls, hclock.trans h.clock, hreadings.trans h.readings⟩

namespace Agree

variable {A : World → α → β → Prop} {B : World → γ → δ → Prop} {x : ClassScript.Answer α}
  {y : Answer β}

/-- An agreement from a later world on. -/
theorem before (hg : Grows φ xs W W') (h : Agree ps W' φ xs A x y) : Agree ps W φ xs A x y := by
  cases h with
  | done grows hm frame ha => exact .done (hg.trans grows) hm frame ha
  | failed grows hm frame => exact .failed (hg.trans grows) hm frame
  | exhausted => exact .exhausted

theorem mono (hsub : ∀ x ∈ xs, x ∈ ys) (h : Agree ps W φ xs A x y) : Agree ps W φ ys A x y := by
  cases h with
  | done grows hm frame ha => exact .done (grows.mono hsub) hm frame ha
  | failed grows hm frame => exact .failed (grows.mono hsub) hm frame
  | exhausted => exact .exhausted

theorem imp {A' : World → α → β → Prop} (h : Agree ps W φ xs A x y)
    (ha : ∀ W' a b, Grows φ xs W W' → A W' a b → A' W' a b) : Agree ps W φ xs A' x y := by
  cases h with
  | done grows hm frame hab => exact .done grows hm frame (ha _ _ _ grows hab)
  | failed grows hm frame => exact .failed grows hm frame
  | exhausted => exact .exhausted

theorem pure {m : Machine} {σ : State} {a : α} {b : β} (hm : Match ps W m σ) (hab : A W a b) :
    Agree ps W m.frame xs A ((Pure.pure a : ClassScript.Run α) m) ((Pure.pure b : Run β) σ) :=
  .done (.refl _ _ _) hm rfl hab

theorem fail {m : Machine} {σ : State} (hm : Match ps W m σ) (fault : Fault) :
    Agree ps W m.frame xs A (ClassScript.Run.fail fault m) (Run.fail fault σ) :=
  .failed (.refl _ _ _) hm rfl

/-- **One run after the other.** -/
theorem bind {m : Machine} {σ : State} {r : ClassScript.Run α} {R : Run β}
    {f : α → ClassScript.Run γ} {F : β → Run δ} (h : Agree ps W φ xs A (r m) (R σ))
    (hf : ∀ W' a b m' σ', Grows φ xs W W' → Match ps W' m' σ' → m'.frame = φ → A W' a b →
      Agree ps W' φ xs B (f a m') (F b σ')) :
    Agree ps W φ xs B ((r >>= f) m) ((R >>= F) σ) := by
  show Agree ps W φ xs B (ClassScript.Run.bind r f m) (Run.bind R F σ)
  unfold ClassScript.Run.bind Run.bind
  generalize r m = x at h
  generalize R σ = y at h
  cases h with
  | done grows hm frame hab => exact (hf _ _ _ _ _ grows hm frame hab).before grows
  | failed grows hm frame => exact .failed grows hm frame
  | exhausted => exact .exhausted

theorem located {m : Machine} {σ : State} {r : ClassScript.Run α} {R : Run β} (span : Span)
    (h : Agree ps W φ xs A (r m) (R σ)) :
    Agree ps W φ xs A (ClassScript.Run.located span r m) (Run.located span R σ) := by
  unfold ClassScript.Run.located Run.located
  generalize r m = x at h
  generalize R σ = y at h
  cases h with
  | done grows hm frame hab => exact .done grows hm frame hab
  | failed grows hm frame => exact .failed grows hm frame
  | exhausted => exact .exhausted

/-- A run in a frame that is new. -/
theorem inFrame {m : Machine} {σ : State} {r : ClassScript.Run α} {R : Run β} {ψ : Nat}
    (hg : Grows m.frame xs W W') (hψ : W.size ≤ ψ)
    (h : Agree ps W' ψ ys A (r { m with frame := ψ }) (R σ)) :
    Agree ps W m.frame xs A (ClassScript.Run.inFrame ψ r m) (R σ) := by
  unfold ClassScript.Run.inFrame
  dsimp only
  generalize r { m with frame := ψ } = x at h
  generalize R σ = y at h
  -- what was declared in the new frame is nothing to the old ones
  have hgrows : ∀ {W''}, Grows ψ ys W' W'' → Grows m.frame xs W W'' := fun hg' => by
    refine ⟨hg.toExtends.trans hg'.toExtends, hg'.same.trans hg.same, fun χ hχ y hy => ?_⟩
    have hne : ¬ (χ = ψ ∧ y ∈ ys) := fun hh => by omega
    rw [hg'.place χ (Nat.lt_of_lt_of_le hχ hg.size) y hne, hg.place χ hχ y hy]
  cases h with
  | done grows hm frame hab => exact .done (hgrows grows) (hm.inFrame _) rfl hab
  | failed grows hm frame => exact .failed (hgrows grows) (hm.inFrame _) rfl
  | exhausted => exact .exhausted

/-- A run as a call, of which both sides count the depth. -/
theorem asCall {m : Machine} {σ : State} {r : ClassScript.Run α} {R : Run β} (hm : Match ps W m σ)
    (h : Match ps W { m with calls := m.calls + 1 } { σ with calls := σ.calls + 1 } →
      Agree ps W m.frame xs A (r { m with calls := m.calls + 1 })
        (R { σ with calls := σ.calls + 1 })) :
    Agree ps W m.frame xs A (ClassScript.Run.asCall r m) (Run.asCall R σ) := by
  have hcount : ∀ {W : World} {m : Machine} {σ : State} {n k : Nat}, Match ps W m σ → k = n →
      Match ps W { m with calls := n } { σ with calls := k } := fun h hn =>
    ⟨h.texts, h.built, h.depths, h.store.congr rfl rfl rfl rfl, h.sink, hn, h.maxCalls, h.clock,
      h.readings⟩
  have hdeep : σ.maxCalls ≤ σ.calls ↔ m.maxCalls ≤ m.calls := by rw [hm.maxCalls, hm.calls]
  unfold ClassScript.Run.asCall Run.asCall
  by_cases hmax : m.maxCalls ≤ m.calls
  · rw [if_pos hmax, if_pos (hdeep.mpr hmax)]
    exact .failed (.refl _ _ _) hm rfl
  · rw [if_neg hmax, if_neg fun hh => hmax (hdeep.mp hh)]
    have h := h (hcount hm (congrArg (· + 1) hm.calls))
    generalize r { m with calls := m.calls + 1 } = x at h
    generalize R { σ with calls := σ.calls + 1 } = y at h
    cases h with
    | done grows hm frame hab => exact .done grows (hcount hm (congrArg (· - 1) hm.calls)) frame hab
    | failed grows hm frame => exact .failed grows (hcount hm (congrArg (· - 1) hm.calls)) frame
    | exhausted => exact .exhausted

end Agree

/-! ### Names -/

variable {m : Machine} {σ : State} {ρ : Env} {awaiting : Option String}
  {scopes : List (NameTable Readiness)} {declares : List (List String)} {id : Nat} {x : String}

/-- A local name that is ready is read alike. -/
theorem readLocal_agrees (hm : Match ps W m σ) (hl : Linked W m.frame awaiting scopes declares ρ)
    {d : Nat} (hid : m.depths.find? id = some d) (hd : depthIn scopes x = some d)
    (hready : ∀ scope ∈ scopes, scope.find? x ≠ some .declared) (hx : awaiting ≠ some x) :
    Agree ps W m.frame xs Alike (ClassScript.Run.readName id x m) (Run.readLocal ρ x σ) := by
  obtain ⟨v, v', hget, hcell, halike, -⟩ := hm.store.read hl hd hready hx
  unfold ClassScript.Run.readName Run.readLocal
  rw [hid, hcell]
  simp only [hget]
  exact .done (.refl _ _ _) hm rfl halike

/-- **A name is read alike,** by its depth and in the environment. -/
theorem readName_agrees (hm : Match ps W m σ) (hl : Linked W m.frame awaiting scopes declares ρ)
    (hid : m.depths.find? id = depthIn scopes x)
    (hready : ∀ scope ∈ scopes, scope.find? x ≠ some .declared) (hx : awaiting ≠ some x) :
    Agree ps W m.frame xs Alike (ClassScript.Run.readName id x m) (Run.readName ρ x σ) := by
  unfold Run.readName
  cases hd : depthIn scopes x with
  | some d =>
    obtain ⟨ψ, cell, -, hcell, -⟩ := hm.store.write hl hd
    have hin : ρ.contains x = true := by simp [NameTable.contains, hcell]
    rw [if_pos hin]
    exact readLocal_agrees hm hl (hid.trans hd) hd hready hx
  | none =>
    have hnone : ρ.find? x = none := (hl.names x).trans (StoreMatch.placeOf_none hd)
    have hout : ¬ ρ.contains x = true := by simp [NameTable.contains, hnone]
    rw [if_neg hout]
    have hglobal := hm.store.globals x
    unfold ClassScript.Run.readName Run.readGlobal
    rw [hid, hd]
    simp only [Store.get_global]
    generalize m.store.lookup globalFrame x = o at hglobal
    generalize σ.globals.find? x = o' at hglobal
    cases hglobal with
    | none => exact .failed (.refl _ _ _) hm rfl
    | some halike => exact .done (.refl _ _ _) hm rfl halike

/-- **A name is written alike.** -/
theorem writeName_agrees (hm : Match ps W m σ) (hl : Linked W m.frame awaiting scopes declares ρ)
    (hid : m.depths.find? id = depthIn scopes x) (hx : ProperName x) {v : Value} {v' : Value Env}
    (hv : Alike W v v') :
    Agree ps W m.frame xs (fun _ _ _ => True) (ClassScript.Run.writeName id x v m)
      (Run.writeName ρ x v' σ) := by
  unfold ClassScript.Run.writeName Run.writeName
  rw [hid]
  cases hd : depthIn scopes x with
  | some d =>
    obtain ⟨ψ, cell, hψ, hcell, hplace⟩ := hm.store.write hl hd
    have hg := bind_grows W ψ x m.frame xs
    have hs := hm.store.settle hplace (hv.mono hg.toExtends) (fun h => absurd h hx.1)
      (fun h => absurd h hx.2)
    simp only [Store.assignAt, hψ, hcell]
    exact .done hg (hm.withStore rfl hs rfl rfl rfl rfl rfl) rfl trivial
  | none =>
    have hnone : ρ.find? x = none := (hl.names x).trans (StoreMatch.placeOf_none hd)
    have hsame : σ.globals.contains x = (m.store.lookup globalFrame x).isSome := by
      have hglobal := hm.store.globals x
      unfold NameTable.contains
      generalize m.store.lookup globalFrame x = o at hglobal ⊢
      generalize σ.globals.find? x = o' at hglobal ⊢
      cases hglobal <;> rfl
    simp only [Store.assign_global, hnone, hsame]
    by_cases hin : (m.store.lookup globalFrame x).isSome = true
    · simp only [if_pos hin]
      have hs := hm.store.global x hv
      exact .done (.refl _ _ _) (hm.withStore rfl hs rfl rfl rfl rfl rfl) rfl trivial
    · simp only [if_neg hin]
      exact .failed (.refl _ _ _) hm rfl

/-! ### New frames -/

theorem Instances.lt_size (h0 : globalFrame < W.size) : ∀ {φ : Nat} {awaiting : Option String}
    {scopes : List (NameTable Readiness)} {declares : List (List String)},
    Instances W φ awaiting scopes declares → φ < W.size
  | _, _, [], [], h => h ▸ h0
  | _, _, _ :: _, _ :: _, h => h.1.inside

/-- The frame `ψ` inside of the frame `outer`, and the environment `ρ'` that comes from `ρ`, stand
for one scope more. -/
structure Opened (W : World) (outer ψ : Nat) (scope : NameTable Readiness) (names : List String)
    (ρ ρ' : Env) : Prop where
  lt : outer < ψ
  parent : W.parent ψ = some outer
  inst : Instance W ψ none scope names
  inside : ∀ x, scope.contains x = true → ρ'.find? x = W.place ψ x
  outside : ∀ x, ¬ scope.contains x = true → ρ'.find? x = ρ.find? x

theorem Opened.mono {outer ψ : Nat} {scope : NameTable Readiness} {names : List String} {ρ' : Env}
    (h : Extends W W') (ho : Opened W outer ψ scope names ρ ρ') :
    Opened W' outer ψ scope names ρ ρ' := by
  refine ⟨ho.lt, (h.parent ψ ho.inst.inside).trans ho.parent, ho.inst.mono h, fun x hx => ?_,
    ho.outside⟩
  obtain ⟨cell, hcell⟩ := Option.isSome_iff_exists.mp (ho.inst.placed x hx)
  rw [ho.inside x hx, hcell, h.kept ψ ho.inst.inside x cell hcell]

/-- What stands for some scopes is extended to one scope more. -/
theorem Linked.open_scope {outer ψ : Nat} {scope : NameTable Readiness} {names : List String}
    {ρ' : Env} (hl : Linked W outer none scopes declares ρ)
    (ho : Opened W outer ψ scope names ρ ρ') :
    Linked W ψ none (scope :: scopes) (names :: declares) ρ' := by
  refine ⟨⟨ho.inst, outer, ho.lt, ho.parent, hl.instances⟩, fun x => ?_⟩
  unfold placeOf
  by_cases hx : scope.contains x = true
  · rw [if_pos hx, ho.inside x hx]
  · rw [if_neg hx, ho.outside x hx, hl.names x, ho.parent]
    rfl

/-- **New cells and a new frame stand for one scope more.** -/
theorem enter_opened {outer : Nat} {ρ' : Env} {scope : NameTable Readiness}
    {table : NameTable (Value Env)} {cells cells' : Array (Option (Value Env))}
    (houter : outer < W.size) (hb : Brings ρ cells table ρ' cells')
    (hscope : ∀ x, scope.contains x = true ↔ table.contains x = true) (names : List String) :
    Opened (W.enter outer names (newCells table ρ')) outer W.size scope names ρ ρ' := by
  have hplace : ∀ x, scope.contains x = true →
      (W.enter outer names (newCells table ρ')).place W.size x = ρ'.find? x := by
    intro x hx
    simp only [World.enter, if_true]
    rw [newCells, if_pos ((hscope x).mp hx)]
  have hsome : ∀ x, scope.contains x = true → (ρ'.find? x).isSome := by
    intro x hx
    obtain ⟨v, hv⟩ := Option.isSome_iff_exists.mp ((hscope x).mp hx)
    obtain ⟨i, hi, -⟩ := hb.new x v hv
    rw [hi]
    rfl
  refine ⟨houter, if_pos rfl, ⟨Nat.lt_succ_self _, if_pos rfl, fun x hx _ => ?_, fun x hx => ?_⟩,
    fun x hx => (hplace x hx).symm, fun x hx => ?_⟩
  · have hc : scope.contains x = true := by simp [NameTable.contains, hx]
    simp only [World.enter, if_true]
    rw [newCells, if_pos ((hscope x).mp hc)]
    exact hsome x hc
  · rw [hplace x hx]
    exact hsome x hx
  · have hc : ¬ table.contains x = true := fun h => hx ((hscope x).mpr h)
    exact hb.other x (by simpa [NameTable.contains] using hc)

/-- Entries for the same names, with alike values. -/
def EntriesAlike (W : World) (entries : List (String × Value))
    (entries' : List (String × Value Env)) : Prop :=
  List.Forall₂ (fun a b => b.1 = a.1 ∧ Alike W a.2 b.2) entries entries'

/-- **Names are bound alike:** in a new frame, and with new cells. -/
theorem Match.enter (hm : Match ps W m σ) {outer : Nat} {entries : List (String × Value)}
    {entries' : List (String × Value Env)} (he : EntriesAlike W entries entries')
    {scope : NameTable Readiness} (ρ : Env) (names : List String) (houter : outer < W.size)
    (hscope : ∀ x, scope.contains x = true ↔ x ∈ entries.map Prod.fst)
    (hnames : ∀ x ∈ entries.map Prod.fst, x ∈ names)
    (hthis : ∀ v, (thisName, v) ∈ entries → ∃ i c, v = .object i c)
    (hsuper : ∀ v, (superName, v) ∈ entries → ∃ c, v = .cls c) :
    ∃ W' ρ' σ', Run.bindAll ρ entries' σ = .done ρ' σ' ∧ (∀ φ xs, Grows φ xs W W') ∧
      Match ps W' { m with store := (m.store.newFrame (some outer) (.ofList entries)).2 } σ' ∧
      Opened W' outer W.size scope names ρ ρ' ∧
      ∀ x, ¬ scope.contains x = true → W'.place W.size x = none := by
  obtain ⟨ρ', cells', hrun, hb⟩ := bindAll_done ρ entries' σ
  have htable : TablesAlike (Alike W) (.ofList entries) (.ofList entries') := .ofList he
  have hcontains : ∀ x, scope.contains x = true ↔ (NameTable.ofList entries').contains x = true := by
    intro x
    rw [hscope, htable.contains, NameTable.contains_ofList]
  have hs := hm.store.enter outer htable hb
    (fun x hx => hnames x ((NameTable.contains_ofList entries x).mp hx))
    (fun v hv => hthis v (NameTable.mem_of_find?_ofList hv))
    (fun v hv => hsuper v (NameTable.mem_of_find?_ofList hv))
  refine ⟨_, ρ', _, hrun, fun φ xs => enter_grows W outer names _ φ xs,
    hm.withStore rfl hs rfl rfl rfl rfl rfl, enter_opened houter hb hcontains names, fun x hx => ?_⟩
  simp only [World.enter, if_true]
  rw [newCells, if_neg fun h => hx ((hcontains x).mpr h)]

/-- A scope that holds one name holds the name of a single entry. -/
theorem contains_single {α : Type} (x y : String) (r : Readiness) (a : α) :
    (NameTable.empty.put x r : NameTable Readiness).contains y = true ↔
      y ∈ [(x, a)].map Prod.fst := by
  rw [NameTable.contains_put]
  simp [eq_comm]

/-- **A method is bound alike,** in a new frame and with a new cell for `this`. -/
theorem bindThis_agrees (hm : Match ps W m σ) {c : Closure} {c' : Closure Env}
    (hc : MethodsAlike W c c') {i : Nat} {k : Class} {k' : Class Env} (hk : ClassesAlike W k k') :
    ∃ W' bound σ', Run.bindThis c' (.object i k') σ = .done bound σ' ∧ (∀ φ xs, Grows φ xs W W') ∧
      Match ps W' { m with store := (m.store.bind c (.object i k)).2 } σ' ∧
      FunctionsAlike W' (m.store.bind c (.object i k)).1 bound := by
  obtain ⟨p, hp, ctx, scopes, declares, hv, ⟨hscopes, hdeclares⟩, hl⟩ := hc.linked
  have he : EntriesAlike W [(thisName, .object i k)] [(thisName, .object i k')] :=
    .cons ⟨rfl, .object i hk⟩ .nil
  obtain ⟨W', ρ', σ', hrun, hg, hm', ho, -⟩ := hm.enter he c'.env [thisName]
    (hl.instances.lt_size hm.store.nonempty)
    (fun x => contains_single thisName x .defined (Value.object i k)) (by simp) (by simp)
    (by simp; decide)
  have hlinked := (hl.mono (hg 0 []).toExtends).open_scope ho
  refine ⟨W', { c' with ident := σ'.idents, env := ρ' }, _, (Run.bind_done hrun _).trans rfl, hg,
    hm'.withStore rfl hm'.store.ident rfl rfl rfl rfl rfl, ?_⟩
  refine ⟨hm'.store.idents, hc.decl, hc.isInit, p, ?_, ctx, _, _, hv, ⟨hscopes, hdeclares, ?_⟩, ?_⟩
  · exact (hg 0 []).texts p hp
  · exact fun _ => rfl
  · show Linked _ m.store.frames.size none _ _ ρ'
    rw [hm.store.size]
    exact hlinked

/-! ### Properties, output and functions of the language -/

theorem ofExcept_agrees (hm : Match ps W m σ) {r : Except Fault Value}
    {r' : Except Fault (Value Env)} (h : OutcomesAlike W r r') :
    Agree ps W m.frame xs Alike (ClassScript.Run.ofExcept r m) (Run.ofExcept r' σ) := by
  cases h with
  | ok hv => exact .pure hm hv
  | error fault => exact .fail hm fault

theorem printLine_agrees (hm : Match ps W m σ) (text : String) :
    Agree ps W m.frame xs (fun _ _ _ => True) (ClassScript.Run.printLine text m)
      (Run.printLine text σ) := by
  unfold ClassScript.Run.printLine Run.printLine
  rw [hm.sink]
  obtain ⟨reason, sink⟩ := m.sink.write (text ++ "\n")
  have hm' : Match ps W { m with sink := sink } { σ with sink := sink } :=
    ⟨hm.texts, hm.built, hm.depths, hm.store.congr rfl rfl rfl rfl, rfl, hm.calls, hm.maxCalls,
      hm.clock, hm.readings⟩
  cases reason with
  | none => exact .done (.refl _ _ _) hm' rfl trivial
  | some reason => exact .failed (.refl _ _ _) hm' rfl

theorem readClock_agrees (hm : Match ps W m σ) :
    Agree ps W m.frame xs (fun _ a b => b = a) (ClassScript.Run.readClock m) (Run.readClock σ) := by
  refine .done (.refl _ _ _) ?_ rfl (by rw [hm.clock, hm.readings])
  exact ⟨hm.texts, hm.built, hm.depths, hm.store.congr rfl rfl rfl rfl, hm.sink, hm.calls,
    hm.maxCalls, hm.clock, congrArg (· + 1) hm.readings⟩

theorem native_agrees (hm : Match ps W m σ) (n : Native) {vs : List Value} {vs' : List (Value Env)}
    (hvs : List.Forall₂ (Alike W) vs vs') (hn : vs.length = n.arity) :
    Agree ps W m.frame xs Alike (ClassScript.Run.native n vs m) (Run.native n vs' σ) := by
  cases n with
  | clock =>
    refine (readClock_agrees hm).bind fun W' a b m' σ' _ hm' hframe hab => ?_
    rw [← hframe, hab]
    exact .pure hm' (.number a)
  | str | type | num =>
    cases hvs with
    | nil => cases hn
    | cons hv _ =>
      first
      | exact ofExcept_agrees hm hv.toNumber
      | (refine .pure hm ?_; rw [hv.display]; exact .text _)
      | (refine .pure hm ?_; rw [hv.kind]; exact .text _)

theorem readProperty_agrees (hm : Match ps W m σ) {v : Value} {v' : Value Env} (hv : Alike W v v')
    (x : String) :
    Agree ps W m.frame xs Alike (ClassScript.Run.readProperty v x m) (Run.readProperty v' x σ) := by
  have hkind := hv.kind
  cases hv with
  | nil | bool | number | text | native | function | cls =>
    exact .failed (.refl _ _ _) hm rfl
  | object i hc =>
    rename_i c c'
    have hfield := hm.store.fields i x
    have hmethod := hc.method? x
    simp only [ClassScript.Run.readProperty, Run.readProperty, Store.property]
    generalize m.store.field? i x = o at hfield
    generalize Run.field? σ i x = o' at hfield
    cases hfield with
    | some hf => exact .done (.refl _ _ _) hm rfl hf
    | none =>
      generalize c.method? x = o at hmethod
      generalize c'.method? x = o' at hmethod
      cases hmethod with
      | none => exact .failed (.refl _ _ _) hm rfl
      | some hmth =>
        obtain ⟨W', bound, σ', hrun, hg, hm', hb⟩ := bindThis_agrees hm hmth hc
        dsimp only [Option.map_some]
        rw [Run.bind_done hrun]
        exact .done (hg _ _) hm' rfl (.function hb)

theorem writeProperty_agrees (hm : Match ps W m σ) (i : Nat) (x : String) {v : Value}
    {v' : Value Env} (hv : Alike W v v') :
    Agree ps W m.frame xs (fun _ _ _ => True) (ClassScript.Run.writeProperty i x v m)
      (Run.writeProperty i x v' σ) :=
  .done (.refl _ _ _) (hm.withStore rfl (hm.store.field i x hv) rfl rfl rfl rfl rfl) rfl trivial

/-- **A method of the superclass is found and bound alike.** -/
theorem readSuper_agrees (hm : Match ps W m σ) (hl : Linked W m.frame none scopes declares ρ)
    {d : Nat} (hid : m.depths.find? id = some (d + 1))
    (hsuper : depthIn scopes superName = some (d + 1)) (hthis : depthIn scopes thisName = some d)
    (hready : ∀ scope ∈ scopes, ∀ x, ¬ ProperName x → scope.find? x ≠ some .declared) (x : String) :
    Agree ps W m.frame xs Alike (ClassScript.Run.readSuper id x m) (Run.readSuper ρ x σ) := by
  obtain ⟨v, v', hget, hcell, halike, ψ, hψ, hinner, hlookup⟩ := hm.store.read hl hsuper
    (fun scope hs => hready scope hs _ fun h => h.2 rfl) (by simp)
  obtain ⟨w, w', hget', hcell', halike', χ, hχ, hinner', hlookup'⟩ := hm.store.read hl hthis
    (fun scope hs => hready scope hs _ fun h => h.1 rfl) (by simp)
  obtain ⟨c, rfl⟩ := hm.store.super ψ hψ hinner v hlookup
  obtain ⟨i, k, rfl⟩ := hm.store.this χ hχ hinner' w hlookup'
  cases halike with | cls hc => ?_
  cases halike' with | object _ hk => ?_
  rename_i c' k'
  have hrun : Run.readLocal ρ superName σ = .done (.cls c') σ := by rw [Run.readLocal, hcell]
  have hrun' : Run.readLocal ρ thisName σ = .done (.object i k') σ := by rw [Run.readLocal, hcell']
  have hmethod := hc.method? x
  unfold ClassScript.Run.readSuper Run.readSuper
  rw [hid, Run.bind_done hrun]
  simp only [hget, hget']
  rw [Run.bind_done hrun']
  dsimp only
  generalize c.method? x = o at hmethod
  generalize c'.method? x = o' at hmethod
  cases hmethod with
  | none => exact .fail hm _
  | some hmth =>
    obtain ⟨W', bound, σ', hrun, hg, hm', hb⟩ := bindThis_agrees hm hmth hk
    dsimp only
    rw [Run.bind_done hrun]
    exact .done (hg _ _) hm' rfl (.function hb)

end Lexical
end ClassScript
