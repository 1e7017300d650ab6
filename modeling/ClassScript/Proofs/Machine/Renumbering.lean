/-
# Runs with other identities

A machine whose functions have code with other identities (`Machine.Renumbered`), and whose table
of depths has the same depths under them, runs a tree with these identities as the first machine
runs the tree itself: the same output, the same errors, the same way to end, and values that
differ in the code of functions only (`Run.Renumbered`). That goes through all that runs are made
of, and by induction on the fuel through whole runs.

Key theorem: `runs_renumbered`.
-/
import ClassScript.Proofs.Scope.Renumbering
import ClassScript.Proofs.Value.Renumbering

namespace ClassScript

variable {α β γ δ : Type} {κ : Nat → Nat}

/-! ### Machines -/

/-- The machine with other identities in the code of all functions, and with the depths `d`. -/
def Machine.renumber (κ : Nat → Nat) (d : Depths) (m : Machine) : Machine :=
  { m with store := m.store.renumber κ, depths := d }

/-- The second machine is the first one with other identities, its depths included. -/
inductive Machine.Renumbered (κ : Nat → Nat) : Machine → Machine → Prop
  | intro {m : Machine} {d : Depths} (h : Depths.Renumbered κ m.depths d) :
    Renumbered κ m (m.renumber κ d)

namespace Machine.Renumbered

variable {m m' : Machine}

theorem store (h : m.Renumbered κ m') : m'.store = m.store.renumber κ := by
  cases h
  rfl

theorem sink (h : m.Renumbered κ m') : m'.sink = m.sink := by
  cases h
  rfl

theorem withStore (h : m.Renumbered κ m') (s : Store) :
    Machine.Renumbered κ { m with store := s } { m' with store := s.renumber κ } := by
  obtain ⟨hd⟩ := h
  exact ⟨hd⟩

theorem withSink (h : m.Renumbered κ m') (sink : Sink) :
    Machine.Renumbered κ { m with sink := sink } { m' with sink := sink } := by
  obtain ⟨hd⟩ := h
  exact ⟨hd⟩

theorem withMaxCalls (h : m.Renumbered κ m') (n : Nat) :
    Machine.Renumbered κ { m with maxCalls := n } { m' with maxCalls := n } := by
  obtain ⟨hd⟩ := h
  exact ⟨hd⟩

theorem atRest (h : m.Renumbered κ m') : m.atRest.Renumbered κ m'.atRest := by
  obtain ⟨hd⟩ := h
  exact ⟨hd⟩

theorem global? (h : m.Renumbered κ m') (x : String) :
    m'.global? x = (m.global? x).map (Value.renumber κ) := by
  rw [Machine.global?, h.store]
  exact m.store.get_global_renumber κ x

end Machine.Renumbered

/-- The same way to end, with machines that differ in identities only and a value that `g` makes
of the other one. -/
inductive Answer.Renumbered (κ : Nat → Nat) (g : α → β) : Answer α → Answer β → Prop
  | done {a : α} {m m' : Machine} (h : m.Renumbered κ m') :
    Renumbered κ g (.done a m) (.done (g a) m')
  | failed {e : RuntimeError} {m m' : Machine} (h : m.Renumbered κ m') :
    Renumbered κ g (.failed e m) (.failed e m')
  | broken (b : Breach) : Renumbered κ g (.broken b) (.broken b)
  | exhausted : Renumbered κ g .exhausted .exhausted

/-- What becomes of a value that is returned. -/
def Flow.renumber (κ : Nat → Nat) : Flow → Flow
  | .next => .next
  | .returned v => .returned (v.renumber κ)

/-- The second run does on a machine with other identities what the first one does. -/
def Run.Renumbered (κ : Nat → Nat) (g : α → β) (r : Run α) (r' : Run β) : Prop :=
  ∀ ⦃m m' : Machine⦄, m.Renumbered κ m' → Answer.Renumbered κ g (r m) (r' m')

namespace Run.Renumbered

variable {g : α → β} {h : γ → δ} {r : Run α} {r' : Run β}

theorem pure {a : α} {b : β} (hab : b = g a) : Renumbered κ g (pure a) (pure b) :=
  fun _ _ hm => hab ▸ .done hm

theorem exhausted : Renumbered κ g exhausted exhausted := fun _ _ _ => .exhausted

theorem fail (fault : Fault) : Renumbered κ g (fail fault) (fail fault) := fun _ _ hm => .failed hm

theorem breach (b : Breach) : Renumbered κ g (breach b) (breach b) := fun _ _ _ => .broken b

/-- **One run after the other.** -/
theorem bind {f : α → Run γ} {f' : β → Run δ} (hr : Renumbered κ g r r')
    (hf : ∀ a, Renumbered κ h (f a) (f' (g a))) : Renumbered κ h (r >>= f) (r' >>= f') := by
  intro m m' hm
  show Answer.Renumbered κ h (Run.bind r f m) (Run.bind r' f' m')
  have hstep := hr hm
  unfold Run.bind
  revert hstep
  generalize r m = x, r' m' = x'
  rintro (hm₁ | hm₁ | b | _)
  · exact hf _ hm₁
  · exact .failed hm₁
  · exact .broken b
  · exact .exhausted

theorem ite {b : Prop} [Decidable b] {q : Run α} {q' : Run β} (hr : Renumbered κ g r r')
    (hq : Renumbered κ g q q') : Renumbered κ g (if b then r else q) (if b then r' else q') := by
  split
  · exact hr
  · exact hq

theorem located (span : Span) (hr : Renumbered κ g r r') :
    Renumbered κ g (r.located span) (r'.located span) := by
  intro m m' hm
  have hstep := hr hm
  unfold Run.located
  revert hstep
  generalize r m = x, r' m' = x'
  rintro (hm₁ | hm₁ | b | _)
  · exact .done hm₁
  · exact .failed hm₁
  · exact .broken b
  · exact .exhausted

/-- A change of machines that keeps them apart by identities only. -/
theorem mapMachine {t : Machine → Machine}
    (ht : ∀ {m m'}, m.Renumbered κ m' → (t m).Renumbered κ (t m')) {x : Answer α} {x' : Answer β}
    (hx : Answer.Renumbered κ g x x') :
    Answer.Renumbered κ g (x.mapMachine t) (x'.mapMachine t) := by
  cases hx with
  | done hm => exact .done (ht hm)
  | failed hm => exact .failed (ht hm)
  | broken b => exact .broken b
  | exhausted => exact .exhausted

theorem inFrame (frame : Nat) (hr : Renumbered κ g r r') :
    Renumbered κ g (r.inFrame frame) (r'.inFrame frame) := by
  rintro m _ ⟨hd⟩
  unfold Run.inFrame
  refine mapMachine ?_ (hr ⟨hd⟩)
  rintro m₁ _ ⟨hd₁⟩
  exact ⟨hd₁⟩

theorem asCall (hr : Renumbered κ g r r') : Renumbered κ g r.asCall r'.asCall := by
  rintro m _ @⟨d, hd⟩
  unfold Run.asCall
  have hcalls : (m.renumber κ d).maxCalls ≤ (m.renumber κ d).calls ↔ m.maxCalls ≤ m.calls := .rfl
  by_cases hdeep : m.maxCalls ≤ m.calls
  · rw [if_pos hdeep, if_pos (hcalls.mpr hdeep)]
    exact .failed ⟨hd⟩
  · rw [if_neg hdeep, if_neg fun hdeep' => hdeep (hcalls.mp hdeep')]
    refine mapMachine ?_ (hr ⟨hd⟩)
    rintro m₁ _ ⟨hd₁⟩
    exact ⟨hd₁⟩

theorem onStore {f : Store → α × Store} {f' : Store → β × Store}
    (hf : ∀ s, f' (s.renumber κ) = (f s).map g (Store.renumber κ)) :
    Renumbered κ g (onStore f) (onStore f') := by
  rintro m _ ⟨hd⟩
  unfold Run.onStore
  dsimp only [Machine.renumber]
  rw [hf]
  exact .done ⟨hd⟩

theorem ofExcept {x : Except Fault α} {x' : Except Fault β} (hx : x' = x.map g) :
    Renumbered κ g (ofExcept x) (ofExcept x') := by
  rw [hx]
  cases x with
  | ok a => exact .pure rfl
  | error fault => exact .fail fault

/-! ### Steps -/

theorem currentFrame : Renumbered κ id currentFrame currentFrame := by
  rintro m _ ⟨hd⟩
  exact .done ⟨hd⟩

theorem newFrame (parent : Nat) (names : NameTable Value) :
    Renumbered κ id (newFrame parent names) (newFrame parent (names.map (Value.renumber κ))) :=
  .onStore fun s => s.newFrame_renumber κ (some parent) names

theorem newIdent : Renumbered κ id newIdent newIdent := .onStore fun _ => rfl

theorem define (x : String) (v : Value) :
    Renumbered κ id (define x v) (define x (v.renumber κ)) := by
  rintro m _ ⟨hd⟩
  unfold Run.define
  dsimp only [Machine.renumber]
  rw [Store.define_renumber]
  exact .done ⟨hd⟩

theorem readName (id : Nat) (x : String) :
    Renumbered κ (Value.renumber κ) (readName id x) (readName (κ id) x) := by
  rintro m _ ⟨hd⟩
  unfold Run.readName
  dsimp only [Machine.renumber]
  rw [hd id]
  cases m.depths.find? id with
  | some depth =>
    dsimp only
    rw [Store.getAt_renumber]
    cases m.store.getAt m.frame depth x with
    | ok v => exact .done ⟨hd⟩
    | error b => exact .broken b
  | none =>
    dsimp only
    rw [Store.get_global_renumber]
    cases m.store.get globalFrame x with
    | some v => exact .done ⟨hd⟩
    | none => exact .failed ⟨hd⟩

theorem writeName (i : Nat) (x : String) (v : Value) :
    Renumbered κ id (writeName i x v) (writeName (κ i) x (v.renumber κ)) := by
  rintro m _ ⟨hd⟩
  unfold Run.writeName
  dsimp only [Machine.renumber]
  rw [hd i]
  cases m.depths.find? i with
  | some depth =>
    dsimp only
    rw [Store.assignAt_renumber]
    cases m.store.assignAt m.frame depth x v with
    | ok s => exact .done ⟨hd⟩
    | error b => exact .broken b
  | none =>
    dsimp only
    rw [Store.assign_global_renumber]
    cases m.store.assign globalFrame x v with
    | some s => exact .done ⟨hd⟩
    | none => exact .failed ⟨hd⟩

theorem printLine (text : String) : Renumbered κ id (printLine text) (printLine text) := by
  rintro m _ ⟨hd⟩
  unfold Run.printLine
  dsimp only [Machine.renumber]
  obtain ⟨reason, sink⟩ := m.sink.write (text ++ "\n")
  cases reason with
  | none => exact .done ⟨hd⟩
  | some reason => exact .failed ⟨hd⟩

theorem readClock : Renumbered κ id readClock readClock := by
  rintro m _ ⟨hd⟩
  exact .done ⟨hd⟩

theorem readProperty (v : Value) (x : String) : Renumbered κ (Value.renumber κ) (readProperty v x)
    (readProperty (v.renumber κ) x) := by
  rintro m _ ⟨hd⟩
  cases v with
  | object i c =>
    unfold Run.readProperty
    dsimp only [Machine.renumber, Value.renumber]
    rw [Store.property_renumber]
    cases m.store.property i c x with
    | some found => exact .done ⟨hd⟩
    | none => exact .failed ⟨hd⟩
  | nil | bool | number | text | native | function | cls => exact .failed ⟨hd⟩

theorem writeProperty (i : Nat) (x : String) (v : Value) :
    Renumbered κ id (writeProperty i x v) (writeProperty i x (v.renumber κ)) := by
  rintro m _ ⟨hd⟩
  unfold Run.writeProperty
  dsimp only [Machine.renumber]
  rw [Store.setField_renumber]
  exact .done ⟨hd⟩

theorem readSuper (id : Nat) (x : String) :
    Renumbered κ (Value.renumber κ) (readSuper id x) (readSuper (κ id) x) := by
  rintro m _ ⟨hd⟩
  unfold Run.readSuper
  dsimp only [Machine.renumber]
  rw [hd id]
  cases m.depths.find? id with
  | none => exact .broken _
  | some depth =>
    dsimp only
    rw [Store.getAt_renumber]
    cases m.store.getAt m.frame depth superName with
    | error b => exact .broken b
    | ok v =>
      cases v with
      | nil | bool | number | text | native | function | object => exact .broken _
      | cls parent =>
        cases depth with
        | zero => exact .broken _
        | succ inner =>
          dsimp only [Except.map, Value.renumber]
          rw [Store.getAt_renumber]
          cases m.store.getAt m.frame inner thisName with
          | error b => exact .broken b
          | ok w =>
            cases w with
            | nil | bool | number | text | native | function | cls => exact .broken _
            | object i c =>
              dsimp only [Except.map, Value.renumber]
              rw [Class.method?_renumber]
              cases parent.method? x with
              | none => exact .failed ⟨hd⟩
              | some method =>
                have hbind := m.store.bind_renumber κ method (.object i c)
                simp only [Value.renumber] at hbind
                simp only [Option.map_some, hbind]
                exact .done ⟨hd⟩

theorem native (n : Native) (args : List Value) : Renumbered κ (Value.renumber κ) (native n args)
    (native n (args.map (Value.renumber κ))) := by
  cases n with
  | clock => exact .bind .readClock fun _ => .pure rfl
  | str =>
    cases args with
    | nil => exact .breach _
    | cons v _ => exact .pure (congrArg Value.text (v.display_renumber κ))
  | type =>
    cases args with
    | nil => exact .breach _
    | cons v _ => exact .pure (congrArg (fun k => Value.text (Kind.name k)) (v.kind_renumber κ))
  | num =>
    cases args with
    | nil => exact .breach _
    | cons v _ => exact .ofExcept (v.toNumber_renumber κ)

/-! ### Calls and classes -/

section

variable {eval : Expr → Run Value} {call : Value → List Value → Run Value} {exec : Stmt → Run Flow}

theorem each (heval : ∀ e, Renumbered κ (Value.renumber κ) (eval e) (eval (e.mapIds κ)))
    (es : List Expr) : Renumbered κ (List.map (Value.renumber κ)) (each eval es)
      (each eval (Expr.mapIdsOf κ es)) := by
  induction es with
  | nil => exact .pure rfl
  | cons e es ih => exact .bind (heval e) fun _ => .bind ih fun _ => .pure rfl

theorem rounds {condition condition' : Run Value} {body body' : Run Flow}
    (hc : Renumbered κ (Value.renumber κ) condition condition')
    (hb : Renumbered κ (Flow.renumber κ) body body') (n : Nat) :
    Renumbered κ (Flow.renumber κ) (rounds condition body n) (rounds condition' body' n) := by
  induction n with
  | zero => exact .exhausted
  | succ n ih =>
    refine .bind hc fun v => ?_
    rw [Value.isTrue_renumber]
    refine .ite (.bind hb fun flow => ?_) (.pure rfl)
    cases flow with
    | next => exact ih
    | returned v => exact .pure rfl

theorem closure (frame : Nat) (decl : FunctionDecl) (isInit : Bool) :
    Renumbered κ (Closure.renumber κ) (closure frame decl isInit)
      (closure frame (decl.mapIds κ) isInit) :=
  .bind .newIdent fun _ => .pure rfl

theorem methods (frame : Nat) : ∀ (decls : List FunctionDecl) (table : NameTable Closure),
    Renumbered κ (NameTable.map (Closure.renumber κ)) (methods frame decls table)
      (methods frame (FunctionDecl.mapIdsOf κ decls) (table.map (Closure.renumber κ)))
  | [], _ => .pure rfl
  | decl :: decls, table => by
    rw [FunctionDecl.mapIdsOf, Run.methods, Run.methods, FunctionDecl.name_mapIds]
    refine .bind (.closure frame decl _) fun c => ?_
    rw [← NameTable.map_put]
    exact methods frame decls _

theorem parameters_renumber (c : Closure) (args : List Value) :
    parameters (c.renumber κ) (args.map (Value.renumber κ)) =
      (parameters c args).map (Value.renumber κ) := by
  unfold Run.parameters Closure.renumber
  rw [NameTable.map_ofList, FunctionDecl.params_mapIds, List.zip_map_right]
  rfl

theorem declareClass (x : String) (parent : Option Class) (decls : List FunctionDecl) :
    Renumbered κ id (declareClass x parent decls)
      (declareClass x (parent.map (Class.renumber κ)) (FunctionDecl.mapIdsOf κ decls)) := by
  refine .bind .currentFrame fun outer => ?_
  cases parent with
  | none =>
    exact .bind (g := id) (.pure rfl) fun frame => .bind (.methods frame decls .empty) fun table =>
      .bind .newIdent fun ident => .define x (.cls ⟨⟨ident, x, table⟩, []⟩)
  | some c =>
    refine .bind (.newFrame outer (NameTable.empty.put superName (.cls c))) fun frame => ?_
    exact .bind (.methods frame decls .empty) fun table => .bind .newIdent fun ident =>
      .define x (.cls ⟨⟨ident, x, table⟩, c.chain⟩)

section

variable (hexec : ∀ s, Renumbered κ (Flow.renumber κ) (exec s) (exec (s.mapIds κ)))

include hexec

theorem sequence (ss : List Stmt) : Renumbered κ (Flow.renumber κ) (sequence exec ss)
    (sequence exec (Stmt.mapIdsOf κ ss)) := by
  induction ss with
  | nil => exact .pure rfl
  | cons s ss ih =>
    refine .bind (hexec s) fun flow => ?_
    cases flow with
    | next => exact ih
    | returned v => exact .pure rfl

theorem apply (c : Closure) (args : List Value) :
    Renumbered κ (Value.renumber κ) (apply exec c args)
      (apply exec (c.renumber κ) (args.map (Value.renumber κ))) := by
  unfold Run.apply
  rw [parameters_renumber]
  refine .bind (.newFrame c.env _) fun frame => ?_
  have hbody := sequence hexec c.decl.body
  rw [← FunctionDecl.body_mapIds] at hbody
  refine .bind (.inFrame frame hbody) fun flow => .ite ?_ ?_
  · rintro m _ ⟨hd⟩
    dsimp only [Machine.renumber, Closure.renumber]
    rw [Store.getAt_renumber]
    cases m.store.getAt c.env 0 thisName with
    | ok v => exact .done ⟨hd⟩
    | error b => exact .broken _
  · cases flow with
    | next => exact .pure rfl
    | returned v => exact .pure rfl

theorem construct (c : Class) (args : List Value) :
    Renumbered κ (Value.renumber κ) (construct exec c args)
      (construct exec (c.renumber κ) (args.map (Value.renumber κ))) := by
  unfold Run.construct Class.init?
  refine .bind (.onStore fun s => s.newObject_renumber κ) fun ident => ?_
  rw [Class.method?_renumber]
  cases c.method? initName with
  | none => exact .pure rfl
  | some init =>
    exact .bind (.onStore fun s => s.bind_renumber κ init (.object ident c)) fun bound =>
      .bind (apply hexec bound args) fun _ => .pure rfl

theorem invoke (callee : Value) (args : List Value) :
    Renumbered κ (Value.renumber κ) (invoke exec callee args)
      (invoke exec (callee.renumber κ) (args.map (Value.renumber κ))) := by
  cases callee with
  | native n => exact .native n args
  | function c => exact apply hexec c args
  | cls c => exact construct hexec c args
  | nil | bool | number | text | object => exact .fail _

theorem callStep (callee : Value) (args : List Value) :
    Renumbered κ (Value.renumber κ) (callStep exec callee args)
      (callStep exec (callee.renumber κ) (args.map (Value.renumber κ))) := by
  unfold Run.callStep
  rw [Value.arity?_renumber, Value.kind_renumber, Value.display_renumber, List.length_map]
  cases callee.arity? with
  | none => exact .fail _
  | some arity => exact .ite (.fail _) (.asCall (invoke hexec callee args))

end

/-! ### One level of the recursion -/

section

variable (heval : ∀ e, Renumbered κ (Value.renumber κ) (eval e) (eval (e.mapIds κ)))

include heval

theorem exprStep (hcall : ∀ v vs, Renumbered κ (Value.renumber κ) (call v vs)
      (call (v.renumber κ) (vs.map (Value.renumber κ)))) (e : Expr) :
    Renumbered κ (Value.renumber κ) (exprStep eval call e) (exprStep eval call (e.mapIds κ)) := by
  unfold Run.exprStep
  rw [Expr.span_mapIds]
  refine .located e.span ?_
  cases e with
  | literal m l => exact .pure (l.value_renumber κ).symm
  | group m e => exact heval e
  | «variable» m x => exact .readName m.id x
  | assign m x e => exact .bind (heval e) fun v => .bind (.writeName m.id x v) fun _ => .pure rfl
  | unary m op e => exact .bind (heval e) fun v => .ofExcept (op.apply_renumber κ v)
  | binary m op l r =>
    exact .bind (heval l) fun v => .bind (heval r) fun w => .ofExcept (op.apply_renumber κ v w)
  | logical m op l r =>
    refine .bind (heval l) fun v => ?_
    rw [LogicalOp.settledBy_renumber]
    exact .ite (.pure rfl) (heval r)
  | call m callee args =>
    exact .bind (heval callee) fun v => .bind (.each heval args) fun vs => hcall v vs
  | get m e x => exact .bind (heval e) fun v => .readProperty v x
  | set m e x value =>
    refine .bind (heval e) fun v => ?_
    cases v with
    | object i c =>
      exact .bind (heval value) fun v => .bind (.writeProperty i x v) fun _ => .pure rfl
    | nil | bool | number | text | native | function | cls => exact .fail _
  | this m => exact .readName m.id thisName
  | super m x => exact .readSuper m.id x

theorem optional (e : Option Expr) : Renumbered κ (Value.renumber κ) (optional eval e)
    (optional eval (e.map (Expr.mapIds κ))) := by
  cases e with
  | none => exact .pure rfl
  | some e => exact heval e

theorem superclass (u : Option NameUse) :
    Renumbered κ (Option.map (Class.renumber κ)) (superclass eval u)
      (superclass eval (u.map (NameUse.mapId κ))) := by
  cases u with
  | none => exact .pure rfl
  | some u =>
    refine .bind (heval u.expr) fun v => ?_
    cases v with
    | cls c => exact .pure rfl
    | nil | bool | number | text | native | function | object => exact .located _ (.fail _)

theorem stmtStep (hexec : ∀ s, Renumbered κ (Flow.renumber κ) (exec s) (exec (s.mapIds κ)))
    (limit : Nat) (s : Stmt) :
    Renumbered κ (Flow.renumber κ) (stmtStep eval exec limit s)
      (stmtStep eval exec limit (s.mapIds κ)) := by
  unfold Run.stmtStep
  rw [Stmt.span_mapIds]
  refine .located s.span ?_
  cases s with
  | expression s e => exact .bind (heval e) fun _ => .pure rfl
  | print s e =>
    refine .bind (heval e) fun v => ?_
    rw [Value.display_renumber]
    exact .bind (.printLine _) fun _ => .pure rfl
  | var s x init =>
    exact .bind (.optional heval init) fun v => .bind (.define x v) fun _ => .pure rfl
  | block s body =>
    exact .bind .currentFrame fun outer => .bind (.newFrame outer {}) fun frame =>
      .inFrame frame (.sequence hexec body)
  | branch s c yes no =>
    refine .bind (heval c) fun v => ?_
    rw [Value.isTrue_renumber]
    refine .ite (hexec yes) ?_
    cases no with
    | none => exact .pure rfl
    | some no => exact hexec no
  | loop s c body => exact .rounds (heval c) (hexec body) limit
  | function s d =>
    dsimp only [Stmt.mapIds]
    rw [FunctionDecl.name_mapIds]
    exact .bind .currentFrame fun frame => .bind (.closure frame d false) fun c =>
      .bind (.define d.name (.function c)) fun _ => .pure rfl
  | «return» s value => exact .bind (.optional heval value) fun _ => .pure rfl
  | classDecl s d parent methods =>
    exact .bind (.superclass heval parent) fun c => .bind (.declareClass d.name c methods) fun _ =>
      .pure rfl

end

end

end Run.Renumbered

/-! ### Whole runs -/

/-- **Trees with other identities run in the same way.** -/
theorem runs_renumbered (κ : Nat → Nat) (f : Nat) :
    (∀ e, Run.Renumbered κ (Value.renumber κ) (eval f e) (eval f (e.mapIds κ))) ∧
    (∀ v vs, Run.Renumbered κ (Value.renumber κ) (call f v vs)
      (call f (v.renumber κ) (vs.map (Value.renumber κ)))) ∧
    ∀ s, Run.Renumbered κ (Flow.renumber κ) (exec f s) (exec f (s.mapIds κ)) := by
  induction f with
  | zero => exact ⟨fun _ => .exhausted, fun _ _ => .exhausted, fun _ => .exhausted⟩
  | succ f ih =>
    obtain ⟨heval, hcall, hexec⟩ := ih
    refine ⟨fun e => ?_, fun v vs => ?_, fun s => ?_⟩
    · simp only [eval, staged_eq]
      exact .exprStep heval hcall e
    · simp only [call, staged_eq]
      exact .callStep hexec v vs
    · simp only [exec, staged_eq]
      exact .stmtStep heval hexec f s

theorem execAll_renumbered (κ : Nat → Nat) (f : Nat) (body : List Stmt) :
    Run.Renumbered κ (Flow.renumber κ) (execAll f body) (execAll f (Stmt.mapIdsOf κ body)) :=
  .sequence (runs_renumbered κ f).2.2 body

/-- **A program with other identities runs in the same way.** -/
theorem Machine.Renumbered.execute {m m' : Machine} {p p' : Program} (hm : m.Renumbered κ m')
    (hp : Program.Renumbered κ p p') (f : Nat) :
    Answer.Renumbered κ id (m.execute f p) (m'.execute f p') := by
  obtain ⟨hd⟩ := hm
  have hrun := execAll_renumbered κ f p.body
    (m := { m with depths := m.depths.merge p.depths }) ⟨hd.merge hp.depths⟩
  rw [← hp.body] at hrun
  unfold Machine.execute
  revert hrun
  dsimp only [Machine.renumber]
  generalize execAll f p.body _ = x, execAll f p'.body _ = x'
  rintro (hm | hm | b | _)
  · exact .done hm.atRest
  · exact .failed hm.atRest
  · exact .broken b
  · exact .exhausted

end ClassScript
