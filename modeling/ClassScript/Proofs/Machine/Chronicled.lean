/-
# Runs write chronicles

All that code does continues a chronicle of the store, and what it yields is at home
(`Chronicled`), as long as its events are sound. This is shown of all that runs are made of,
step by step, and then of whole runs by induction on the fuel.

Key theorem: `traced_chronicled`.
-/
import ClassScript.Proofs.Machine.Keywords

namespace ClassScript

open Scope Traced

variable {α β : Type} {A : List Event → Store → α → Prop} {B : List Event → Store → β → Prop}
  {es : List Event} {m m₁ : Machine} {s : Store} {t : Traced α} {within : Option Closure} {v : Value}

/-! ### What steps yield -/

/-- The value that a statement returns is at home, if there is one. -/
def Flow.AtHome (es : List Event) (s : Store) : Flow → Prop
  | .next => True
  | .returned v => v.AtHome es s

theorem Store.AtHome.getAt {frame d : Nat} {x : String} (h : s.AtHome es)
    (hv : s.getAt frame d x = .ok v) : v.AtHome es s := by
  unfold Store.getAt at hv
  split at hv
  · cases hv
  · split at hv
    · rename_i hlookup
      cases hv
      exact h.names _ _ _ hlookup
    · cases hv

theorem Literal.atHome (l : Literal) : l.value.AtHome es s := by
  cases l <;> trivial

theorem UnaryOp.atHome {op : UnaryOp} {v w : Value} (h : op.apply v = .ok w) : w.AtHome es s := by
  unfold UnaryOp.apply at h
  split at h <;> cases h <;> trivial

theorem BinaryOp.onNumbers_atHome (op : BinaryOp) (x y : Float) :
    (op.onNumbers x y : Value).AtHome es s := by
  cases op <;> trivial

theorem BinaryOp.atHome {op : BinaryOp} {u v w : Value} (h : op.apply u v = .ok w) :
    w.AtHome es s := by
  unfold BinaryOp.apply at h
  split at h
  · cases h
    trivial
  · cases h
    trivial
  · cases h
    trivial
  · cases h
    exact onNumbers_atHome _ _ _
  · cases h

theorem Value.toNumber_atHome {v w : Value} (h : v.toNumber = .ok w) : w.AtHome es s := by
  unfold Value.toNumber at h
  split at h
  · cases h
    trivial
  · split at h <;> cases h
    trivial
  · cases h

theorem ofExcept_done {x : Except Fault α} {a : α} (h : Run.ofExcept x m = .done a m₁) : x = .ok a := by
  cases x with
  | ok b =>
    cases h
    rfl
  | error fault => cases h

theorem native_atHome {n : Native} {args : List Value} (h : Run.native n args m = .done v m₁) :
    v.AtHome es s := by
  unfold Run.native at h
  split at h
  · cases h
    trivial
  · cases h
    trivial
  · cases h
    trivial
  · exact Value.toNumber_atHome (ofExcept_done h)
  · cases h

theorem readName_atHome {id : Nat} {x : String} (hh : m.store.AtHome es)
    (h : Run.readName id x m = .done v m₁) : v.AtHome es m.store := by
  unfold Run.readName at h
  split at h
  · split at h
    · rename_i hget
      cases h
      exact hh.getAt hget
    · cases h
  · split at h
    · rename_i hget
      cases h
      rw [Store.get_global] at hget
      exact hh.names _ _ _ hget
    · cases h

/-! ### What continues every chronicle -/

/-- Code of the function `within` continues every chronicle, and yields what the property `A` says. -/
def Chronicled (A : List Event → Store → α → Prop) (within : Option Closure) (t : Traced α) : Prop :=
  ∀ (es : List Event) (m : Machine), Placed es m within → Proceeds A es m t

/-- The expressions of the function `within` continue every chronicle. -/
def EvalChronicled (within : Option Closure) (eval : Expr → Traced Value) : Prop :=
  ∀ e, Covers within e.ids → Chronicled Value.AtHome within (eval e)

/-- The statements of the function `within` continue every chronicle. -/
def ExecChronicled (within : Option Closure) (exec : Stmt → Traced Flow) : Prop :=
  ∀ s, Covers within s.homeIds → Chronicled Flow.AtHome within (exec s)

/-- All values of the list are at home. -/
def AllAtHome (es : List Event) (s : Store) (vs : List Value) : Prop := ∀ v ∈ vs, v.AtHome es s

/-- Calls continue every chronicle, of values at home and with such arguments. -/
def CallChronicled (call : Value → List Value → Traced Value) : Prop :=
  ∀ (es : List Event) (m : Machine) (v : Value) (vs : List Value), Recorded es m.store →
    v.AtHome es m.store → AllAtHome es m.store vs → Proceeds Value.AtHome es m (call v vs)

namespace Chronicled

variable {eval : Expr → Traced Value} {call : Value → List Value → Traced Value}
  {exec : Stmt → Traced Flow} {body : Closure → Stmt → Traced Flow}

theorem still {r : Run α} (h : Still r)
    (hresult : ∀ es m a m', Placed es m within → r m = .done a m' → m.store.Later m'.store →
      A es m'.store a) : Chronicled A within (Traced.quiet r) := fun es m hp =>
  h.proceeds hp.toRecorded fun a m' => hresult es m a m' hp

theorem pure {a : α} (h : ∀ es s, A es s a) : Chronicled A within (Pure.pure a : Traced α) :=
  still (.pure a) fun es m b m' _ hb _ => by
    cases hb
    exact h es _

theorem fail (fault : Fault) : Chronicled A within (Traced.quiet (Run.fail fault) : Traced α) :=
  still (.fail fault) fun _ _ _ _ _ h => by cases h

theorem bind {g : α → Traced β} (h : Chronicled A within t)
    (hg : ∀ a es m, Placed es m within → A es m.store a → Proceeds B es m (g a)) :
    Chronicled B within (t >>= g) := fun es m hp =>
  .andThen hp (h es m hp) fun a _ m₁ _ hp₁ ha => hg a _ m₁ hp₁ ha

theorem located (span : Span) (h : Chronicled A within t) : Chronicled A within (t.located span) :=
  fun es m hp => (h es m hp).located span

end Chronicled

/-! ### Single steps -/

namespace Proceeds

theorem pure {a : α} (hr : Recorded es m.store) (ha : A es m.store a) :
    Proceeds A es m (Pure.pure a : Traced α) := fun _ =>
  .done (.refl hr) (by simpa using ha)

theorem currentFrame {g : Nat → Traced β} (h : Proceeds B es m (g m.frame)) :
    Proceeds B es m (Traced.quiet Run.currentFrame >>= g) := h

theorem define {x : String} (hx : ProperName x) (hp : Placed es m within) (hv : v.AtHome es m.store) :
    Proceeds (fun _ _ _ => True) es m (Traced.quiet (Run.define x v)) := by
  have ho := hp.inside.ordinary
  have hmoves : m.store.Moves (m.store.define m.frame x v) := .define ho (.inr hx) v
  refine .quiet hp.chronicle (.define x v) ?_ ?_ fun _ _ _ => trivial
  · rintro m' ⟨⟩
    exact hmoves
  · rintro m' ⟨⟩
    exact hp.home.define ho.1 hmoves.toLater hv

theorem writeProperty (hr : Recorded es m.store) (i : Nat) (x : String) (hv : v.AtHome es m.store) :
    Proceeds (fun _ _ _ => True) es m (Traced.quiet (Run.writeProperty i x v)) := by
  refine .quiet hr.chronicle (.writeProperty i x v) ?_ ?_ fun _ _ _ => trivial
  · rintro m' ⟨⟩
    exact .of_frames rfl
  · rintro m' ⟨⟩
    exact hr.home.setField i hv

/-- A field is at home, and so is a method of a class at home. -/
theorem readProperty (hr : Recorded es m.store) (hv : v.AtHome es m.store) (x : String) :
    Proceeds Value.AtHome es m (Traced.seen .method (Run.readProperty v x)) := by
  refine .method hr (.readProperty v x) (fun a m' h => ?_) fun e m' h => ?_
  · unfold Run.readProperty Store.property at h
    split at h
    · rename_i i c
      have hclass : c.AtHome es m.store := hv
      cases hf : m.store.field? i x with
      | some w =>
        rw [hf] at h
        cases h
        exact .inl ⟨rfl, hr.home.fields _ _ _ hf⟩
      | none =>
        rw [hf] at h
        cases hmethod : c.method? x with
        | none =>
          rw [hmethod] at h
          cases h
        | some k =>
          rw [hmethod] at h
          cases h
          exact .inr ⟨k, i, c, hclass.method? hmethod, hclass, rfl, fun _ hk => hk⟩
    · cases h
  · unfold Run.readProperty at h
    split at h
    · split at h <;> cases h
      rfl
    · cases h
      rfl

theorem readSuper (hr : Recorded es m.store) (id : Nat) (x : String) :
    Proceeds Value.AtHome es m (Traced.seen .method (Run.readSuper id x)) := by
  refine .method hr (.readSuper id x) (fun a m' h => ?_) fun e m' h => ?_
  · unfold Run.readSuper at h
    repeat' split at h
    all_goals cases h
    rename_i parent _ _ _ hsuper _ i c hthis _ k hmethod _ _ _ hbind
    have hparent : parent.AtHome es m.store := hr.home.getAt hsuper
    have hclass : c.AtHome es m.store := hr.home.getAt hthis
    refine .inr ⟨k, i, c, hparent.method? hmethod, hclass, (congrArg Prod.snd hbind).symm,
      fun es' hk => ?_⟩
    rw [hbind] at hk
    exact hk
  · unfold Run.readSuper at h
    repeat' split at h
    all_goals cases h
    rfl

/-- A reference that is assigned to leads to a frame without keywords, for such a frame binds no
other name. -/
theorem ordinary_of_assigns (hp : Placed es m within) {id d : Nat} {x : String} (hx : ProperName x)
    (h : m.moment.Assigns id x) (hd : m.depths.find? id = some d) :
    ∃ φ, m.store.ancestor d m.frame = some φ ∧ m.store.Ordinary φ := by
  obtain ⟨φ, hφ, hlt, hcases⟩ := h d hd
  refine ⟨φ, hφ, ?_⟩
  rcases hcases with rfl | hbound
  · exact hp.inside.ordinary
  · refine ⟨hlt, fun hk => ?_⟩
    have hnone : m.moment.store.lookup φ x = none := hp.chronicle.single hk hx
    rw [hnone] at hbound
    cases hbound

/-- A name is assigned to, after something else has been done. -/
theorem writeName (hp : Placed es m₁ within) (hv : v.AtHome es m₁.store) {id : Nat} {x : String}
    (later : m.store.Later m₁.store) (kept : Kept m m₁)
    (h : ∀ d, m.depths.find? id = some d →
      ∃ φ, m.store.ancestor d m.frame = some φ ∧ m.store.Ordinary φ) (hx : ProperName x) :
    Proceeds (fun _ _ _ => True) es m₁ (Traced.quiet (Run.writeName id x v)) := by
  -- the name is bound in a frame without keywords, if anything is changed at all
  have hdefine : ∀ m' ∈ (Run.writeName id x v m₁).machine?, m'.store = m₁.store ∨
      ∃ φ, m₁.store.Ordinary φ ∧ m'.store = m₁.store.define φ x v := by
    intro m' hm'
    unfold Run.writeName at hm'
    cases hd : m₁.depths.find? id with
    | some d =>
      obtain ⟨φ, hφ, hordinary⟩ := h d (kept.depths ▸ hd)
      have hφ₁ : m₁.store.ancestor d m₁.frame = some φ := kept.frame ▸ later.ancestor hφ
      simp only [hd, Store.assignAt, hφ₁] at hm'
      cases hm'
      exact .inr ⟨φ, later.ordinary hordinary, rfl⟩
    | none =>
      simp only [hd, Store.assign_global] at hm'
      by_cases hbound : (m₁.store.lookup globalFrame x).isSome = true
      · simp only [if_pos hbound] at hm'
        cases hm'
        exact .inr ⟨globalFrame, .global hp.chronicle.nonempty, rfl⟩
      · simp only [if_neg hbound] at hm'
        cases hm'
        exact .inl rfl
  refine .quiet hp.chronicle (.writeName id x v) (fun m' hm' => ?_) (fun m' hm' => ?_)
    fun _ _ _ => trivial
  · rcases hdefine m' hm' with heq | ⟨φ, ho, heq⟩
    · exact heq ▸ .refl _
    · exact heq ▸ .define ho (.inr hx) v
  · rcases hdefine m' hm' with heq | ⟨φ, ho, heq⟩
    · exact heq ▸ hp.home
    · exact heq ▸ hp.home.define ho.1 (Store.Moves.define ho (.inr hx) v).toLater hv

end Proceeds

/-! ### What runs are made of -/

namespace Chronicled

variable {eval : Expr → Traced Value} {call : Value → List Value → Traced Value}
  {exec : Stmt → Traced Flow} {body : Closure → Stmt → Traced Flow}

theorem printing (span : Span) {t : Traced Value} (h : Chronicled Value.AtHome within t) :
    Chronicled Flow.AtHome within (Traced.printing span t) :=
  h.bind fun v _ _ hp _ => .andThen hp (.printLine hp.toRecorded span v.display)
    fun _ _ _ _ hp₁ _ => .pure hp₁.toRecorded trivial

theorem each (he : EvalChronicled within eval) : ∀ {exprs : List Expr},
    Covers within (Expr.idsOf exprs) → Chronicled AllAtHome within (Traced.each eval exprs)
  | [], _ => pure fun _ _ _ hv => by cases hv
  | e :: exprs, hids => by
    have hfirst := he e (hids.part (List.subset_append_left _ _))
    have hrest := each he (hids.part (List.subset_append_right e.ids (Expr.idsOf exprs)))
    refine hfirst.bind fun v es m hp hv => .andThen hp (hrest es m hp) fun vs es₁ m₁ hm hp₁ hvs => ?_
    refine .pure hp₁.toRecorded fun w hw => ?_
    rcases List.mem_cons.mp hw with rfl | hw
    · exact hm.value hv
    · exact hvs w hw

theorem sequence (hx : ExecChronicled within exec) : ∀ {ss : List Stmt},
    Covers within (Stmt.homeIdsOf ss) → Chronicled Flow.AtHome within (Traced.sequence exec ss)
  | [], _ => pure fun _ _ => trivial
  | s :: ss, hids => by
    have hfirst := hx s (hids.part (List.subset_append_left _ _))
    have hrest := sequence hx (hids.part (List.subset_append_right s.homeIds (Stmt.homeIdsOf ss)))
    refine hfirst.bind fun flow es m hp hflow => ?_
    cases flow with
    | next => exact hrest es m hp
    | returned v => exact .pure hp.toRecorded hflow

theorem rounds {condition : Traced Value} {round : Traced Flow}
    (hc : Chronicled Value.AtHome within condition) (hb : Chronicled Flow.AtHome within round)
    (n : Nat) : Chronicled Flow.AtHome within (Traced.rounds condition round n) := by
  induction n with
  | zero => exact still .exhausted fun _ _ _ _ _ h => by cases h
  | succ n ih =>
    refine hc.bind fun v es m hp _ => ?_
    by_cases htrue : v.isTrue = true
    · rw [if_pos htrue]
      refine .andThen hp (hb es m hp) fun flow es₁ m₁ _ hp₁ hflow => ?_
      cases flow with
      | next => exact ih _ m₁ hp₁
      | returned v => exact .pure hp₁.toRecorded hflow
    · rw [if_neg htrue]
      exact .pure hp.toRecorded trivial

theorem optional (he : EvalChronicled within eval) {e : Option Expr}
    (hids : Covers within (Expr.optionalIds e)) :
    Chronicled Value.AtHome within (Traced.optional eval e) := by
  cases e with
  | none => exact pure fun _ _ => trivial
  | some e => exact he e hids

/-! ### Classes -/

/-- A superclass is at home, and there is one if there is a name for it. -/
theorem superclass (he : EvalChronicled within eval) {u : Option NameUse}
    (hids : ∀ n ∈ u, Covers within n.expr.ids) :
    Chronicled (fun es s c => (∀ parent ∈ c, parent.AtHome es s) ∧ (c = none → u = none)) within
      (Traced.superclass eval u) := by
  cases u with
  | none => exact pure fun _ _ => ⟨by simp, fun _ => rfl⟩
  | some n =>
    refine (he n.expr (hids n rfl)).bind fun v es m hp hv => ?_
    cases v with
    | cls c =>
      refine .pure hp.toRecorded ⟨fun parent hparent => ?_, by simp⟩
      cases hparent
      exact hv
    | nil | bool | number | text | native | function | object =>
      exact located _ (fail _) es m hp

/-- Methods that are declared in a frame are at home, if their code is at home there. -/
theorem methods_atHome {frame : Nat} : ∀ {ds : List FunctionDecl} {table table' : NameTable Closure}
    {m m' : Machine}, Run.methods frame ds table m = .done table' m' →
    Home es s frame (FunctionDecl.homeIdsOf ds) →
    (∀ x k, table.find? x = some k → k.AtHome es s) → ∀ x k, table'.find? x = some k → k.AtHome es s
  | [], _, _, _, _, h, _, htable => by
    cases h
    exact htable
  | d :: ds, table, _, m, _, h, hhome, htable => by
    have hrest : Home es s frame (FunctionDecl.homeIdsOf ds) :=
      hhome.part (List.subset_append_right d.homeIds _)
    have hmethods : Run.methods frame ds
        (table.put d.name ⟨m.store.idents, d, frame, d.name == initName⟩)
        { m with store := m.store.newIdent.2 } = .done _ _ := h
    refine methods_atHome hmethods hrest fun x k hk => ?_
    rw [NameTable.find?_put] at hk
    by_cases hx : d.name = x
    · rw [if_pos hx] at hk
      cases hk
      exact hhome.part (List.subset_append_left _ _)
    · rw [if_neg hx] at hk
      exact htable x k hk

/-- A class with a proper name. Without a superclass, its methods are code of the function that is
running. -/
theorem declareClass {x : String} (hx : ProperName x) (hp : Placed es m within) {parent : Option Class}
    (hparent : ∀ c ∈ parent, c.AtHome es m.store) {ds : List FunctionDecl}
    (hids : parent = none → Covers within (FunctionDecl.homeIdsOf ds)) :
    Proceeds (fun _ _ _ => True) es m (Traced.declareClass x parent ds) := by
  have hrest : ∀ {es m}, Placed es m within → ∀ (frame : Nat) (inherited : List ClassBody),
      Home es m.store frame (FunctionDecl.homeIdsOf ds) →
      (∀ b ∈ inherited, ∀ y k, b.methods.find? y = some k → k.AtHome es m.store) →
      Proceeds (fun _ _ _ => True) es m (do
        let table ← Traced.quiet (Run.methods frame ds .empty)
        let ident ← Traced.quiet Run.newIdent
        Traced.quiet (Run.define x (.cls ⟨⟨ident, x, table⟩, inherited⟩))) := by
    intro es m hp frame inherited hhome hinherited
    let A : List Event → Store → NameTable Closure → Prop := fun es s table =>
      ∀ y k, table.find? y = some k → k.AtHome es s
    have hmethods : Proceeds A es m (Traced.quiet (Run.methods frame ds .empty)) :=
      (Still.methods frame ds .empty).proceeds hp.toRecorded fun table m' hm' hlater =>
        methods_atHome hm' (hhome.mono (List.Subset.refl _) hlater) (by simp)
    refine .andThen hp hmethods fun table es₁ m₁ hm₁ hp₁ htable => ?_
    have hident : Proceeds (fun _ _ _ => True) (es ++ es₁) m₁ (Traced.quiet Run.newIdent) :=
      Still.newIdent.proceeds hp₁.toRecorded fun _ _ _ _ => trivial
    refine .andThen hp₁ hident fun ident es₂ m₂ hm₂ hp₂ _ => .define hx hp₂ fun b hb y k hk => ?_
    rcases List.mem_cons.mp hb with rfl | hb
    · exact hm₂.function (htable y k hk)
    · exact hm₂.function (hm₁.function (hinherited b hb y k hk))
  cases parent with
  | none => exact hrest hp m.frame [] (.within hp.inside hp.function (hids rfl)) (by simp)
  | some c =>
    have hclass := hparent c rfl
    refine .currentFrame (.andThen hp (.superclass hp.toRecorded m.frame hclass ds)
      fun frame es₁ m₁ hm₁ hp₁ hhome => ?_)
    exact hrest hp₁ frame c.chain hhome fun b hb y k hk => hm₁.function (hclass b hb y k hk)

/-! ### Calls -/

/-- The names that a call binds are its parameters, and their values are the arguments. -/
theorem find?_parameters {c : Closure} {args : List Value} {x : String}
    (h : (Run.parameters c args).find? x = some v) : (∃ q ∈ c.decl.params, q.name = x) ∧ v ∈ args := by
  obtain ⟨hname, hvalue⟩ := List.of_mem_zip (NameTable.mem_of_find?_ofList h)
  exact ⟨List.mem_map.mp hname, hvalue⟩

/-- The body of a function runs in a frame just inside of its environment. -/
theorem apply (hx : ∀ k, ExecChronicled (some k) (body k)) {k : Closure}
    (hproper : k.ProperParams) {args : List Value} (hr : Recorded es m.store)
    (hk : k.AtHome es m.store) (hargs : AllAtHome es m.store args) :
    Proceeds Value.AtHome es m (Traced.apply body k args) := by
  have hnames : ∀ x, ¬ ProperName x → (Run.parameters k args).find? x = none := by
    intro x hx
    by_contra hne
    obtain ⟨v, hv⟩ := Option.ne_none_iff_exists'.mp hne
    obtain ⟨⟨q, hq, rfl⟩, -⟩ := find?_parameters hv
    exact hx (hproper q hq)
  refine .newFrame hr k.env hnames (fun x v hv => hargs v (find?_parameters hv).2)
    fun {m₁ frame} hm₁ ho hinner hframe => ?_
  have hk₁ := hm₁.function hk
  have hr₁ := hm₁.toRecorded
  rw [List.append_nil] at hk₁ hr₁
  have hp₁ : Placed es { m₁ with frame } (some k) :=
    ⟨hr₁, .body ho hinner hframe, by rintro _ ⟨⟩; exact hk₁⟩
  have hcovers : Covers (some k) (Stmt.homeIdsOf k.decl.body) := by
    rintro _ ⟨⟩
    rw [FunctionDecl.homeIds_eq]
    exact List.Subset.refl _
  refine ((sequence (hx k) hcovers es _ hp₁).inFrame frame).bind fun flow es₂ m₂ _ hm₂ hflow => ?_
  by_cases hinit : k.isInit = true
  · rw [if_pos hinit]
    refine (Still.initialized k.env).proceeds hm₂.toRecorded fun v m' hm' _ => ?_
    split at hm'
    · rename_i hget
      cases hm'
      exact hm₂.home.getAt hget
    · cases hm'
  · rw [if_neg hinit]
    cases flow with
    | next => exact .pure hm₂.toRecorded trivial
    | returned v => exact .pure hm₂.toRecorded hflow

theorem construct (hx : ∀ k, ExecChronicled (some k) (body k)) {c : Class}
    (hproper : ∀ init, c.init? = some init → init.ProperParams) {args : List Value}
    (hr : Recorded es m.store) (hclass : c.AtHome es m.store) (hargs : AllAtHome es m.store args) :
    Proceeds Value.AtHome es m (Traced.construct body c args) := by
  have hnew : Proceeds (fun _ _ _ => True) es m (Traced.quiet (Run.onStore Store.newObject)) :=
    Still.newObject.proceeds hr fun _ _ _ _ => trivial
  refine hnew.bind fun ident es₁ m₁ _ hm₁ _ => ?_
  have hobject : (Value.object ident c).AtHome (es ++ es₁) m₁.store :=
    hclass.mono (List.subset_append_left _ _) hm₁.later
  cases hinit : c.init? with
  | none => exact .pure hm₁.toRecorded hobject
  | some init =>
    have hbind : Proceeds Closure.AtHome (es ++ es₁) m₁
        (Traced.seen .method (Run.onStore fun s => s.bind init (.object ident c))) := by
      refine .method hm₁.toRecorded (.onStore _) (fun a m' hm' => ?_) (by rintro _ _ ⟨⟩)
      cases hm'
      exact .inr ⟨init, ident, c, Class.AtHome.method? hobject hinit, hobject, rfl, fun _ hk => hk⟩
    refine hbind.bind fun bound es₂ m₂ hbound hm₂ hk => ?_
    -- binding a method does not change its parameters
    have hparams : bound.ProperParams := by
      obtain ⟨-, hbound⟩ := Prod.mk.inj (show (_, _) = (es₂, _) from hbound)
      cases hbound
      exact hproper init hinit
    have hargs₂ : AllAtHome (es ++ es₁ ++ es₂) m₂.store args := fun v hv =>
      hm₂.value (hm₁.value (hargs v hv))
    have happly := apply hx hparams hm₂.toRecorded hk hargs₂
    refine happly.bind fun _ es₃ m₃ _ hm₃ _ => ?_
    exact .pure hm₃.toRecorded (hm₃.value (hm₂.value hobject))

theorem invoke (hx : ∀ k, ExecChronicled (some k) (body k)) {callee : Value}
    (hproper : callee.ProperParams) {args : List Value} (hr : Recorded es m.store)
    (hcallee : callee.AtHome es m.store) (hargs : AllAtHome es m.store args) :
    Proceeds Value.AtHome es m (Traced.invoke body callee args) := by
  cases callee with
  | native n => exact (Still.native n args).proceeds hr fun _ _ h _ => native_atHome h
  | function k => exact apply hx hproper hr hcallee hargs
  | cls c => exact construct hx hproper hr hcallee hargs
  | nil | bool | number | text | object =>
    exact (Still.fail _).proceeds hr fun _ _ h => by cases h

/-- **A call,** given how the statements of functions are run. -/
theorem callStep (hx : ∀ k, ExecChronicled (some k) (body k)) (active : Nat) :
    CallChronicled (Traced.callStep body active) := by
  intro es m callee args hr hcallee hargs
  have hfail : ∀ fault, Proceeds Value.AtHome es m (Traced.quiet (Run.fail fault)) := fun fault =>
    (Still.fail fault).proceeds hr fun _ _ h => by cases h
  unfold Traced.callStep
  cases callee.arity? with
  | none => exact hfail _
  | some arity =>
    dsimp only
    by_cases hlength : args.length ≠ arity
    · rw [if_pos hlength]
      exact hfail _
    · rw [if_neg hlength]
      refine .asCall hr fun hproper hnote => ?_
      exact invoke hx hproper hnote.toRecorded (hnote.value hcallee) fun v hv =>
        hnote.value (hargs v hv)

/-! ### Nodes -/

/-- **An expression,** given its parts and calls. -/
theorem exprStep (he : EvalChronicled within eval) (hcall : CallChronicled call) {e : Expr}
    (hp : Placed es m within) (hids : Covers within e.ids) (hsuits : m.moment.Suits (.expr e)) :
    Proceeds Value.AtHome es m (Traced.exprStep eval call e) := by
  have hread : ∀ id x, Chronicled Value.AtHome within (Traced.quiet (Run.readName id x)) := fun id x =>
    still (.readName id x) fun es m v m' hp h hlater =>
      (readName_atHome hp.home h).mono (List.Subset.refl _) hlater
  refine .located e.span ?_
  cases e with
  | literal _ l => exact .pure hp.toRecorded l.atHome
  | group _ e => exact he e (hids.part (List.subset_append_left _ _)) es m hp
  | «variable» mark x => exact hread mark.id x es m hp
  | this mark => exact hread mark.id thisName es m hp
  | super mark x => exact .readSuper hp.toRecorded mark.id x
  | assign mark x e =>
    obtain ⟨hx, hassigns⟩ := hsuits
    have hvalue := he e (hids.part (List.subset_append_left _ _))
    refine .andThen hp (hvalue es m hp) fun v es₁ m₁ hm₁ hp₁ hv => ?_
    have hwrite := Proceeds.writeName hp₁ hv hm₁.later hm₁.kept
      (fun d hd => Proceeds.ordinary_of_assigns hp hx hassigns hd) hx
    exact .andThen hp₁ hwrite fun _ _ _ hm₂ hp₂ _ => .pure hp₂.toRecorded (hm₂.value hv)
  | unary _ op e =>
    have hvalue := he e (hids.part (List.subset_append_left _ _))
    refine hvalue.bind (fun v es m hp _ => ?_) es m hp
    exact (Still.ofExcept _).proceeds hp.toRecorded fun _ _ h _ =>
      UnaryOp.atHome (ofExcept_done h)
  | binary _ op l r =>
    have hl := he l (hids.part (by simp [Expr.ids]))
    have hr := he r (hids.part (by simp [Expr.ids]))
    refine hl.bind (fun x es m hp _ => hr.bind (fun y es m hp _ => ?_) es m hp) es m hp
    exact (Still.ofExcept _).proceeds hp.toRecorded fun _ _ h _ =>
      BinaryOp.atHome (ofExcept_done h)
  | logical _ op l r =>
    have hl := he l (hids.part (by simp [Expr.ids]))
    have hr := he r (hids.part (by simp [Expr.ids]))
    refine hl.bind (fun v es m hp hv => ?_) es m hp
    by_cases hsettled : op.settledBy v = true
    · rw [if_pos hsettled]
      exact .pure hp.toRecorded hv
    · rw [if_neg hsettled]
      exact hr es m hp
  | call _ callee args =>
    have hcallee := he callee (hids.part (by simp [Expr.ids]))
    have hargs : Chronicled AllAtHome within (Traced.each eval args) :=
      each he (hids.part (by simp [Expr.ids]))
    refine hcallee.bind (fun v es m hp hv => ?_) es m hp
    refine .andThen hp (hargs es m hp) fun vs es₁ m₁ hm₁ hp₁ hvs => ?_
    exact hcall _ m₁ v vs hp₁.toRecorded (hm₁.value hv) hvs
  | get _ e x =>
    have hobject := he e (hids.part (List.subset_append_left _ _))
    exact hobject.bind (fun v es m hp hv => .readProperty hp.toRecorded hv x) es m hp
  | set _ e x value =>
    have hobject := he e (hids.part (by simp [Expr.ids]))
    have hvalue := he value (hids.part (by simp [Expr.ids]))
    refine hobject.bind (fun o es m hp _ => ?_) es m hp
    cases o with
    | object i c =>
      refine hvalue.bind (fun v es m hp hv => ?_) es m hp
      exact .andThen hp (.writeProperty hp.toRecorded i x hv) fun _ _ _ hm₁ hp₁ _ =>
        .pure hp₁.toRecorded (hm₁.value hv)
    | nil | bool | number | text | native | function | cls => exact fail _ es m hp

/-- **A statement,** given its expressions and statements. -/
theorem stmtStep (he : EvalChronicled within eval) (hx : ExecChronicled within exec) (limit : Nat)
    {s : Stmt} (hp : Placed es m within) (hids : Covers within s.homeIds)
    (hs : ∀ x ∈ s.declares, ProperName x) :
    Proceeds Flow.AtHome es m (Traced.stmtStep eval exec limit s) := by
  have hnext : ∀ {es m}, Placed es m within → Proceeds Flow.AtHome es m (Pure.pure .next) := fun hp =>
    .pure hp.toRecorded trivial
  refine .located s.span ?_
  cases s with
  | expression _ e => exact (he e hids).bind (fun _ _ _ hp _ => hnext hp) es m hp
  | print span e => exact printing span (he e hids) es m hp
  | var _ x init =>
    refine (optional he hids).bind (fun v es m hp hv => ?_) es m hp
    exact .andThen hp (.define (hs x rfl) hp hv) fun _ _ _ _ hp₁ _ => hnext hp₁
  | block _ ss =>
    refine .currentFrame (.newFrame hp.toRecorded m.frame (fun _ _ => rfl)
      (fun _ _ h => by cases h) fun {m₁ frame} hm₁ ho hinner hframe => ?_)
    have hp₁ := hm₁.placed hp
    rw [List.append_nil] at hp₁
    have hinside : m₁.store.Within within frame :=
      .block ho hinner hframe (hp.inside.later hm₁.later)
    exact (sequence hx hids es { m₁ with frame }
      ⟨hp₁.toRecorded, hinside, hp₁.function⟩).inFrame frame
  | branch _ c yes no =>
    have hc := he c (hids.part (by simp [Stmt.homeIds]))
    refine hc.bind (fun v es m hp _ => ?_) es m hp
    by_cases htrue : v.isTrue = true
    · rw [if_pos htrue]
      exact hx yes (hids.part (by simp [Stmt.homeIds])) es m hp
    · rw [if_neg htrue]
      cases no with
      | none => exact hnext hp
      | some s => exact hx s (hids.part (by simp [Stmt.homeIds, Stmt.optionalHomeIds])) es m hp
  | loop _ c round =>
    exact rounds (he c (hids.part (by simp [Stmt.homeIds])))
      (hx round (hids.part (by simp [Stmt.homeIds]))) limit es m hp
  | function _ d =>
    have hclosure : Proceeds Closure.AtHome es m (Traced.quiet (Run.closure m.frame d false)) :=
      (Still.closure m.frame d false).proceeds hp.toRecorded fun k m' hm' hlater => by
        cases hm'
        exact (Home.within hp.inside hp.function hids).mono (List.Subset.refl _) hlater
    refine .currentFrame (.andThen hp hclosure fun k es₁ m₁ _ hp₁ hk => ?_)
    exact .andThen hp₁ (.define (hs d.name rfl) hp₁ hk) fun _ _ _ _ hp₂ _ => hnext hp₂
  | «return» _ value =>
    refine (optional he hids).bind (fun v es m hp hv => ?_) es m hp
    exact .pure hp.toRecorded hv
  | classDecl _ name u ds =>
    have hparent : ∀ n ∈ u, Covers within n.expr.ids := by
      rintro n ⟨⟩
      exact hids
    refine (superclass he hparent).bind (fun c es m hp hc => ?_) es m hp
    have hmethods : c = none → Covers within (FunctionDecl.homeIdsOf ds) := by
      intro hnone
      cases hc.2 hnone
      exact hids
    exact .andThen hp (declareClass (hs name.name rfl) hp hc.1 hmethods) fun _ _ _ _ hp₁ _ => hnext hp₁

end Chronicled

/-! ### Traced evaluation -/

/-- **Runs write chronicles:** the code of functions that are at home continues every chronicle, and
what it yields is at home. -/
theorem traced_chronicled (f : Nat) : ∀ active,
    (∀ within, EvalChronicled within (tracedEval f active within)) ∧
    CallChronicled (tracedCall f active) ∧
    ∀ within, ExecChronicled within (tracedExec f active within) := by
  induction f with
  | zero =>
    have hspent : ∀ {α : Type} {A : List Event → Store → α → Prop} {es m}, Recorded es m.store →
        Proceeds A es m (quiet (Run.exhausted : Run α)) := fun hr =>
      Still.exhausted.proceeds hr fun _ _ h => by cases h
    exact fun _ => ⟨fun _ _ _ _ _ hp => hspent hp.toRecorded, fun _ _ _ _ hr _ _ => hspent hr,
      fun _ _ _ _ _ hp => hspent hp.toRecorded⟩
  | succ f ih =>
    intro active
    obtain ⟨he, hcall, hx⟩ := ih active
    refine ⟨fun within e hids => ?_, ?_, fun within s hids => ?_⟩
    · simp only [tracedEval]
      exact fun es m hp => .visit hp hids fun hsuits hp₁ =>
        Chronicled.exprStep (he within) hcall hp₁ hids hsuits
    · intro es m v vs
      simp only [tracedCall]
      exact Chronicled.callStep (fun k => (ih (active + 1)).2.2 (some k)) active es m v vs
    · simp only [tracedExec]
      exact fun es m hp => .visit hp hids fun hsuits hp₁ =>
        Chronicled.stmtStep (he within) (hx within) f hp₁ hids hsuits

end ClassScript
