/-
# Machines and states that match

A machine and a state of a run under lexical scoping match in a world (`Match`) if they
hold alike values: the frames in the names that have cells and the cells themselves, the
global names on both sides, and the fields of objects.

What changes one of them changes the other in the same way, in a world that has grown: a
new frame and new cells (`StoreMatch.enter`), the declaration of a local name
(`StoreMatch.declare`), a value for it (`StoreMatch.settle`), one for a global name
(`StoreMatch.global`), and new objects, identities and fields.
-/
import ClassScript.Proofs.Lexical.World

namespace ClassScript
namespace Lexical

open Scope ClassScript.Lexical.Run

/-- A name of a frame and its cell have alike values, or no value both. -/
structure Slot (W : World) (s : Store) (σ : State) (φ : Nat) (x : String) (cell : Nat) : Prop where
  inside : φ < W.size
  inner : φ ≠ globalFrame
  declared : x ∈ W.declares φ
  allocated : cell < σ.cells.size
  alike : Option.Rel (Alike W) (s.lookup φ x) σ.cells[cell]?.join

structure StoreMatch (W : World) (s : Store) (σ : State) : Prop where
  size : s.frames.size = W.size
  nonempty : globalFrame < W.size
  parent : ∀ φ < W.size, s.parent? φ = W.parent φ
  root : W.parent globalFrame = none
  bound : ∀ φ < W.size, φ ≠ globalFrame → ∀ x, W.bound φ x ↔ (s.lookup φ x).isSome
  placed : ∀ φ < W.size, φ ≠ globalFrame → ∀ x, W.bound φ x → (W.place φ x).isSome
  slot : ∀ φ x cell, W.place φ x = some cell → Slot W s σ φ x cell
  apart : ∀ φ ψ x y cell, W.place φ x = some cell → W.place ψ y = some cell → φ = ψ ∧ x = y
  globals : ∀ x, Option.Rel (Alike W) (s.lookup globalFrame x) (σ.globals.find? x)
  objects : σ.objects.size = s.objects.size
  fields : ∀ i x, Option.Rel (Alike W) (s.field? i x) (field? σ i x)
  this : ∀ φ < W.size, φ ≠ globalFrame → ∀ v, s.lookup φ thisName = some v → ∃ i c, v = .object i c
  super : ∀ φ < W.size, φ ≠ globalFrame → ∀ v, s.lookup φ superName = some v → ∃ c, v = .cls c
  idents : σ.idents = s.idents

/-- A table holds the depths of the programs, and no others. -/
structure Records (ps : List Program) (Δ : Depths) : Prop where
  own : ∀ p ∈ ps, ∀ id ∈ Stmt.idsOf p.body, Δ.find? id = p.depths.find? id
  other : ∀ id, (∀ p ∈ ps, id ∉ Stmt.idsOf p.body) → Δ.find? id = none

/-- The machine and the state match in the world `W`, whatever frame is current. The programs that
were run are `ps`. -/
structure Match (ps : List Program) (W : World) (m : Machine) (σ : State) : Prop where
  texts : W.texts = ps
  built : ∀ p ∈ W.texts, p.Built
  depths : Records W.texts m.depths
  store : StoreMatch W m.store σ
  sink : σ.sink = m.sink
  calls : σ.calls = m.calls
  maxCalls : σ.maxCalls = m.maxCalls
  clock : σ.clock = m.clock
  readings : σ.readings = m.readings

variable {W : World} {s : Store} {σ : State} {φ : Nat} {ρ ρ' : Env} {x : String}

/-! ### New frames -/

namespace World

/-- The world with a new frame inside of the frame `outer`, in which the names that have cells are
bound. -/
def enter (W : World) (outer : Nat) (names : List String) (cells : String → Option Nat) : World where
  texts := W.texts
  size := W.size + 1
  parent := fun φ => if φ = W.size then some outer else W.parent φ
  declares := fun φ => if φ = W.size then names else W.declares φ
  bound := fun φ x => if φ = W.size then (cells x).isSome = true else W.bound φ x
  place := fun φ x => if φ = W.size then cells x else W.place φ x

/-- The world in which a name of a frame has a cell. -/
def declare (W : World) (φ : Nat) (x : String) (cell : Nat) : World :=
  { W with place := fun ψ y => if ψ = φ ∧ y = x then some cell else W.place ψ y }

/-- The world in which a name of a frame is bound. -/
def bind (W : World) (φ : Nat) (x : String) : World :=
  { W with bound := fun ψ y => (ψ = φ ∧ y = x) ∨ W.bound ψ y }

end World

theorem enter_grows (W : World) (outer : Nat) (names : List String) (cells : String → Option Nat)
    (φ : Nat) (xs : List String) : Grows φ xs W (W.enter outer names cells) := by
  have hne : ∀ {ψ}, ψ < W.size → ψ ≠ W.size := fun h => Nat.ne_of_lt h
  refine ⟨⟨fun _ h => h, Nat.le_succ _, fun ψ hψ => if_neg (hne hψ), fun ψ hψ => if_neg (hne hψ),
    fun ψ hψ y hy => ?_, fun ψ hψ y cell hy => ?_⟩, rfl, fun ψ hψ y _ => if_neg (hne hψ)⟩
  · rw [World.enter]
    simpa only [if_neg (hne hψ)] using hy
  · rw [← hy]
    exact if_neg (hne hψ)

theorem declare_grows (cell : Nat) (h : W.place φ x = none) :
    Grows φ [x] W (W.declare φ x cell) := by
  refine ⟨⟨fun _ h => h, Nat.le_refl _, fun _ _ => rfl, fun _ _ => rfl, fun _ _ _ h => h, ?_⟩,
    rfl, ?_⟩
  · intro ψ _ y c hy
    have hne : ¬ (ψ = φ ∧ y = x) := by
      rintro ⟨rfl, rfl⟩
      rw [h] at hy
      cases hy
    rw [← hy]
    exact if_neg hne
  · intro ψ _ y hy
    rw [List.mem_singleton] at hy
    exact if_neg hy

theorem bind_grows (W : World) (φ : Nat) (x : String) (ψ : Nat) (xs : List String) :
    Grows ψ xs W (W.bind φ x) :=
  ⟨⟨fun _ h => h, Nat.le_refl _, fun _ _ => rfl, fun _ _ => rfl, fun _ _ _ h => .inr h,
    fun _ _ _ _ h => h⟩, rfl, fun _ _ _ _ => rfl⟩

/-- From the environment `ρ` and its cells, names got new cells that hold the values of a table. -/
structure Brings (ρ : Env) (cells : Array (Option (Value Env))) (table : NameTable (Value Env))
    (ρ' : Env) (cells' : Array (Option (Value Env))) : Prop where
  size : cells.size ≤ cells'.size
  old : ∀ i < cells.size, cells'[i]? = cells[i]?
  other : ∀ x, table.find? x = none → ρ'.find? x = ρ.find? x
  new : ∀ x v, table.find? x = some v →
    ∃ i, ρ'.find? x = some i ∧ cells.size ≤ i ∧ cells'[i]? = some (some v)
  apart : ∀ x y i, table.contains x = true → table.contains y = true → ρ'.find? x = some i →
    ρ'.find? y = some i → x = y

namespace Brings

variable {cells cells' : Array (Option (Value Env))} {table : NameTable (Value Env)}

theorem nothing (ρ : Env) (cells : Array (Option (Value Env))) :
    Brings ρ cells .empty ρ cells :=
  ⟨Nat.le_refl _, fun _ _ => rfl, fun _ _ => rfl, fun _ _ h => (by cases h), fun _ _ _ h =>
    (by cases h)⟩

/-- A name that the table has is in a cell that there is. -/
theorem lt_size (h : Brings ρ cells table ρ' cells') {i : Nat} (hx : table.contains x = true)
    (hi : ρ'.find? x = some i) : i < cells'.size := by
  obtain ⟨v, hv⟩ := Option.isSome_iff_exists.mp hx
  obtain ⟨j, hj, -, hget⟩ := h.new x v hv
  obtain rfl : j = i := by
    rw [hj] at hi
    exact Option.some.inj hi
  exact (Array.getElem?_eq_some_iff.mp hget).1

theorem put (h : Brings ρ cells table ρ' cells') (x : String) (v : Value Env) :
    Brings ρ cells (table.put x v) (ρ'.put x cells'.size) (cells'.push (some v)) := by
  refine ⟨?_, ?_, ?_, ?_, ?_⟩
  · rw [Array.size_push]
    exact Nat.le_succ_of_le h.size
  · intro i hi
    have hlt : i < cells'.size := Nat.lt_of_lt_of_le hi h.size
    rw [Array.getElem?_push, if_neg (Nat.ne_of_lt hlt)]
    exact h.old i hi
  · intro y hy
    rw [NameTable.find?_put] at hy ⊢
    by_cases hxy : x = y
    · rw [if_pos hxy] at hy
      cases hy
    · rw [if_neg hxy] at hy ⊢
      exact h.other y hy
  · intro y w hy
    rw [NameTable.find?_put] at hy ⊢
    by_cases hxy : x = y
    · rw [if_pos hxy] at hy ⊢
      cases hy
      exact ⟨_, rfl, h.size, by simp⟩
    · rw [if_neg hxy] at hy ⊢
      obtain ⟨i, hi, hle, hget⟩ := h.new y w hy
      have hlt := (Array.getElem?_eq_some_iff.mp hget).1
      refine ⟨i, hi, hle, ?_⟩
      rw [Array.getElem?_push, if_neg (Nat.ne_of_lt hlt)]
      exact hget
  · intro y z i hy hz hyi hzi
    rw [NameTable.contains_put, Bool.or_eq_true, decide_eq_true_eq] at hy hz
    rw [NameTable.find?_put] at hyi hzi
    -- the cell of `x` is newer than all others
    have hold : ∀ {y}, ¬ x = y → (x = y ∨ table.contains y = true) → ρ'.find? y = some i →
        i < cells'.size := fun hne hy hi => h.lt_size (hy.resolve_left hne) hi
    by_cases hxy : x = y <;> by_cases hxz : x = z
    · exact hxy.symm.trans hxz
    · rw [if_pos hxy, Option.some.injEq] at hyi
      rw [if_neg hxz] at hzi
      have := hold hxz hz hzi
      omega
    · rw [if_pos hxz, Option.some.injEq] at hzi
      rw [if_neg hxy] at hyi
      have := hold hxy hy hyi
      omega
    · rw [if_neg hxy] at hyi
      rw [if_neg hxz] at hzi
      exact h.apart y z i (hy.resolve_left hxy) (hz.resolve_left hxz) hyi hzi

end Brings

theorem bindAll_brings {cells : Array (Option (Value Env))} :
    ∀ (entries : List (String × Value Env)) (table : NameTable (Value Env)) (ρ' : Env) (σ : State),
    Brings ρ cells table ρ' σ.cells →
    ∃ ρ'' cells', bindAll ρ' entries σ = .done ρ'' { σ with cells := cells' } ∧
      Brings ρ cells (entries.foldl (fun t e => t.put e.1 e.2) table) ρ'' cells'
  | [], table, ρ', σ, h => ⟨ρ', σ.cells, rfl, h⟩
  | (x, v) :: entries, table, ρ', σ, h => by
    obtain ⟨ρ'', cells', hrun, hb⟩ := bindAll_brings entries (table.put x v)
      (ρ'.put x σ.cells.size) { σ with cells := σ.cells.push (some v) } (h.put x v)
    exact ⟨ρ'', cells', hrun, hb⟩

/-- **Binding names gives each of them a new cell.** -/
theorem bindAll_done (ρ : Env) (entries : List (String × Value Env)) (σ : State) :
    ∃ ρ' cells', bindAll ρ entries σ = .done ρ' { σ with cells := cells' } ∧
      Brings ρ σ.cells (.ofList entries) ρ' cells' :=
  bindAll_brings entries .empty ρ σ (.nothing ρ σ.cells)

/-! ### What changes on both sides -/

/-- The cells that the names of a table got. -/
def newCells (table : NameTable (Value Env)) (ρ : Env) (x : String) : Option Nat :=
  if table.contains x then ρ.find? x else none

theorem newCells_eq_some {table : NameTable (Value Env)} {cell : Nat} :
    newCells table ρ x = some cell ↔ table.contains x = true ∧ ρ.find? x = some cell := by
  unfold newCells
  by_cases hx : table.contains x = true
  · simp [hx]
  · simp [hx]

namespace Brings

variable {cells cells' : Array (Option (Value Env))} {table : NameTable (Value Env)}

/-- The names of the table have new cells, and no others have. -/
theorem isSome_newCells (h : Brings ρ cells table ρ' cells') (x : String) :
    (newCells table ρ' x).isSome = table.contains x := by
  cases hx : table.find? x with
  | none => simp [newCells, NameTable.contains, hx]
  | some v =>
    obtain ⟨i, hi, -⟩ := h.new x v hx
    simp [newCells, NameTable.contains, hx, hi]

/-- A new cell is newer than the others, and holds the value that its name has in the table. -/
theorem new_cell (h : Brings ρ cells table ρ' cells') {cell : Nat}
    (hx : newCells table ρ' x = some cell) : cells.size ≤ cell ∧
      ∃ v, table.find? x = some v ∧ cells'[cell]? = some (some v) := by
  obtain ⟨hc, hfind⟩ := newCells_eq_some.mp hx
  obtain ⟨v, hv⟩ := Option.isSome_iff_exists.mp hc
  obtain ⟨i, hi, hle, hget⟩ := h.new x v hv
  obtain rfl : i = cell := Option.some.inj (hi.symm.trans hfind)
  exact ⟨hle, v, hv, hget⟩

/-- No two names share a new cell. -/
theorem new_apart (h : Brings ρ cells table ρ' cells') {y : String} {cell : Nat}
    (hx : newCells table ρ' x = some cell) (hy : newCells table ρ' y = some cell) : x = y := by
  obtain ⟨hxc, hxf⟩ := newCells_eq_some.mp hx
  obtain ⟨hyc, hyf⟩ := newCells_eq_some.mp hy
  exact h.apart x y cell hxc hyc hxf hyf

end Brings

theorem TablesAlike.contains {α β : Type} {R : α → β → Prop} {t : NameTable α} {t' : NameTable β}
    (h : TablesAlike R t t') (x : String) : t'.contains x = t.contains x := by
  have hx := h x
  unfold NameTable.contains
  generalize t.find? x = o at hx ⊢
  generalize t'.find? x = o' at hx ⊢
  cases hx <;> rfl

theorem Slot.mono {W' : World} {cell : Nat} (h : Extends W W') (hs : Slot W s σ φ x cell)
    {s' : Store} {σ' : State} (hlookup : s'.lookup φ x = s.lookup φ x)
    (hcell : σ'.cells[cell]? = σ.cells[cell]?) : Slot W' s' σ' φ x cell := by
  have hlt : cell < σ'.cells.size := by
    have := Array.getElem?_eq_getElem hs.allocated
    rw [← hcell] at this
    exact (Array.getElem?_eq_some_iff.mp this).1
  refine ⟨Nat.lt_of_lt_of_le hs.inside h.size, hs.inner, ?_, hlt, ?_⟩
  · rw [h.declares φ hs.inside]
    exact hs.declared
  · rw [hlookup, hcell]
    exact optionRel_mono (fun _ _ => Alike.mono h) hs.alike

namespace StoreMatch

/-- In the world with a new frame each cell still belongs to one name of one frame: the new cells are
newer than those of the other frames. -/
theorem enter_apart (h : StoreMatch W s σ) {names : List String} {table : NameTable (Value Env)}
    {cells' : Array (Option (Value Env))} {outer ψ cell : Nat} {y : String}
    (hb : Brings ρ σ.cells table ρ' cells')
    (hx : (W.enter outer names (newCells table ρ')).place φ x = some cell)
    (hy : (W.enter outer names (newCells table ρ')).place ψ y = some cell) : φ = ψ ∧ x = y := by
  by_cases hφ : φ = W.size <;> by_cases hψ : ψ = W.size
  · simp only [World.enter, if_pos hφ] at hx
    simp only [World.enter, if_pos hψ] at hy
    exact ⟨hφ.trans hψ.symm, hb.new_apart hx hy⟩
  · simp only [World.enter, if_pos hφ] at hx
    simp only [World.enter, if_neg hψ] at hy
    have hnew := (hb.new_cell hx).1
    have hold := (h.slot ψ y cell hy).allocated
    omega
  · simp only [World.enter, if_neg hφ] at hx
    simp only [World.enter, if_pos hψ] at hy
    have hnew := (hb.new_cell hy).1
    have hold := (h.slot φ x cell hx).allocated
    omega
  · simp only [World.enter, if_neg hφ] at hx
    simp only [World.enter, if_neg hψ] at hy
    exact h.apart φ ψ x y cell hx hy

/-- **A new frame and new cells.** -/
theorem enter (h : StoreMatch W s σ) {names : List String} {table : NameTable Value}
    {table' : NameTable (Value Env)} {cells' : Array (Option (Value Env))} (outer : Nat)
    (ht : TablesAlike (Alike W) table table') (hb : Brings ρ σ.cells table' ρ' cells')
    (hnames : ∀ x, table.contains x = true → x ∈ names)
    (hthis : ∀ v, table.find? thisName = some v → ∃ i c, v = .object i c)
    (hsuper : ∀ v, table.find? superName = some v → ∃ c, v = .cls c) :
    StoreMatch (W.enter outer names (newCells table' ρ')) (s.newFrame (some outer) table).2
      { σ with cells := cells' } := by
  have hext := (enter_grows W outer names (newCells table' ρ') 0 []).toExtends
  have hlookup : ∀ ψ y, (s.newFrame (some outer) table).2.lookup ψ y =
      if ψ = W.size then table.find? y else s.lookup ψ y := fun ψ y => by
    rw [Store.lookup_newFrame, h.size]
  have hroot : ¬ globalFrame = W.size := Nat.ne_of_lt h.nonempty
  -- a frame of the new world is old or new
  have hcases : ∀ {ψ}, ψ < W.size + 1 → ¬ ψ = W.size → ψ < W.size := fun hlt hne => by omega
  refine ⟨?_, ?_, ?_, ?_, ?_, ?_, ?_, fun _ _ _ _ _ hy hz => h.enter_apart hb hy hz, ?_, h.objects,
    ?_, ?_, ?_, h.idents⟩
  · simp [Store.newFrame, World.enter, h.size]
  · exact Nat.lt_succ_of_lt h.nonempty
  · intro ψ hψ
    rw [Store.parent?_newFrame, h.size]
    by_cases hne : ψ = W.size
    · rw [if_pos hne]
      exact (if_pos hne).symm
    · rw [if_neg hne, h.parent ψ (hcases hψ hne)]
      exact (if_neg hne).symm
  · exact (if_neg hroot).trans h.root
  · intro ψ hψ hinner y
    rw [hlookup]
    by_cases hne : ψ = W.size
    · simp only [World.enter, if_pos hne]
      rw [hb.isSome_newCells, ht.contains, NameTable.contains]
    · simp only [World.enter, if_neg hne]
      exact h.bound ψ (hcases hψ hne) hinner y
  · intro ψ hψ hinner y hy
    by_cases hne : ψ = W.size
    · simpa only [World.enter, if_pos hne] using hy
    · simp only [World.enter, if_neg hne] at hy ⊢
      exact h.placed ψ (hcases hψ hne) hinner y hy
  · intro ψ y cell hcell
    by_cases hne : ψ = W.size
    · simp only [World.enter, if_pos hne] at hcell
      obtain ⟨-, v, hv, hget⟩ := hb.new_cell hcell
      refine ⟨hne ▸ Nat.lt_succ_self _, ?_, ?_, (Array.getElem?_eq_some_iff.mp hget).1, ?_⟩
      · rw [hne]
        exact fun heq => hroot heq.symm
      · simp only [World.enter, if_pos hne]
        exact hnames y (ht.contains y ▸ (newCells_eq_some.mp hcell).1)
      · have hrel := ht y
        rw [hlookup, if_pos hne, hget]
        rw [hv] at hrel
        exact optionRel_mono (fun _ _ => Alike.mono hext) hrel
    · simp only [World.enter, if_neg hne] at hcell
      have hslot := h.slot ψ y cell hcell
      exact hslot.mono hext (by rw [hlookup, if_neg hne]) (hb.old cell hslot.allocated)
  · intro y
    rw [hlookup, if_neg hroot]
    exact optionRel_mono (fun _ _ => Alike.mono hext) (h.globals y)
  · exact fun i y => optionRel_mono (fun _ _ => Alike.mono hext) (h.fields i y)
  · intro ψ hψ hinner v hv
    rw [hlookup] at hv
    by_cases hne : ψ = W.size
    · exact hthis v (by rwa [if_pos hne] at hv)
    · exact h.this ψ (hcases hψ hne) hinner v (by rwa [if_neg hne] at hv)
  · intro ψ hψ hinner v hv
    rw [hlookup] at hv
    by_cases hne : ψ = W.size
    · exact hsuper v (by rwa [if_pos hne] at hv)
    · exact h.super ψ (hcases hψ hne) hinner v (by rwa [if_neg hne] at hv)

/-- A name without a cell is not bound. -/
theorem lookup_none (h : StoreMatch W s σ) (hφ : φ < W.size) (hinner : φ ≠ globalFrame)
    (hx : W.place φ x = none) : s.lookup φ x = none := by
  cases hl : s.lookup φ x with
  | none => rfl
  | some v =>
    have hplaced := h.placed φ hφ hinner x ((h.bound φ hφ hinner x).mpr (by simp [hl]))
    rw [hx] at hplaced
    cases hplaced

/-- **A local declaration:** the name gets a cell without a value. -/
theorem declare (h : StoreMatch W s σ) (hφ : φ < W.size) (hinner : φ ≠ globalFrame)
    (hx : W.place φ x = none) (hdecl : x ∈ W.declares φ) :
    StoreMatch (W.declare φ x σ.cells.size) s { σ with cells := σ.cells.push none } := by
  have hext := (declare_grows σ.cells.size hx).toExtends
  have hold : ∀ {cell}, cell < σ.cells.size → (σ.cells.push none)[cell]? = σ.cells[cell]? :=
    fun hlt => by rw [Array.getElem?_push, if_neg (Nat.ne_of_lt hlt)]
  refine ⟨h.size, h.nonempty, h.parent, h.root, h.bound, ?_, ?_, ?_, ?_, h.objects, ?_, h.this,
    h.super, h.idents⟩
  · intro ψ hψ hi y hy
    obtain ⟨cell, hcell⟩ := Option.isSome_iff_exists.mp (h.placed ψ hψ hi y hy)
    rw [hext.kept ψ hψ y cell hcell]
    rfl
  · intro ψ y cell hcell
    by_cases heq : ψ = φ ∧ y = x
    · simp only [World.declare, if_pos heq, Option.some.injEq] at hcell
      obtain ⟨rfl, rfl⟩ := heq
      subst hcell
      refine ⟨hφ, hinner, hdecl, by simp, ?_⟩
      rw [h.lookup_none hφ hinner hx, Array.getElem?_push_size]
      exact .none
    · simp only [World.declare, if_neg heq] at hcell
      have hslot := h.slot ψ y cell hcell
      exact hslot.mono hext rfl (hold hslot.allocated)
  · intro ψ χ y z cell hy hz
    by_cases hψ : ψ = φ ∧ y = x <;> by_cases hχ : χ = φ ∧ z = x
    · exact ⟨hψ.1.trans hχ.1.symm, hψ.2.trans hχ.2.symm⟩
    · simp only [World.declare, if_pos hψ, Option.some.injEq] at hy
      simp only [World.declare, if_neg hχ] at hz
      have := (h.slot χ z cell hz).allocated
      omega
    · simp only [World.declare, if_neg hψ] at hy
      simp only [World.declare, if_pos hχ, Option.some.injEq] at hz
      have := (h.slot ψ y cell hy).allocated
      omega
    · simp only [World.declare, if_neg hψ] at hy
      simp only [World.declare, if_neg hχ] at hz
      exact h.apart ψ χ y z cell hy hz
  · exact fun y => optionRel_mono (fun _ _ => Alike.mono hext) (h.globals y)
  · exact fun i y => optionRel_mono (fun _ _ => Alike.mono hext) (h.fields i y)

/-- **A value for a name that has a cell.** -/
theorem settle (h : StoreMatch W s σ) {cell : Nat} {v : Value} {v' : Value Env}
    (hcell : W.place φ x = some cell) (hv : Alike (W.bind φ x) v v')
    (hthis : x = thisName → ∃ i c, v = .object i c) (hsuper : x = superName → ∃ c, v = .cls c) :
    StoreMatch (W.bind φ x) (s.define φ x v)
      { σ with cells := σ.cells.setIfInBounds cell (some v') } := by
  have hext := (bind_grows W φ x 0 []).toExtends
  have hslot := h.slot φ x cell hcell
  have hlt : φ < s.frames.size := h.size ▸ hslot.inside
  have hlookup : ∀ ψ y, (s.define φ x v).lookup ψ y =
      if φ = ψ ∧ x = y then some v else s.lookup ψ y := fun ψ y => s.lookup_define hlt ψ x y v
  refine ⟨?_, h.nonempty, ?_, h.root, ?_, ?_, ?_, h.apart, ?_, h.objects, ?_, ?_, ?_, h.idents⟩
  · rw [Store.size_define]
    exact h.size
  · intro ψ hψ
    rw [Store.parent?_define]
    exact h.parent ψ hψ
  · intro ψ hψ hi y
    rw [hlookup]
    have hb := h.bound ψ hψ hi y
    by_cases heq : φ = ψ ∧ x = y
    · simp [World.bind, heq.1, heq.2]
    · have : ¬ (ψ = φ ∧ y = x) := fun hh => heq ⟨hh.1.symm, hh.2.symm⟩
      simp only [World.bind, this, false_or, if_neg heq]
      exact hb
  · intro ψ hψ hi y hy
    rcases hy with ⟨rfl, rfl⟩ | hy
    · simp [World.bind, hcell]
    · exact h.placed ψ hψ hi y hy
  · intro ψ y c hc
    by_cases heq : φ = ψ ∧ x = y
    · obtain ⟨rfl, rfl⟩ := heq
      obtain rfl : cell = c := by
        have hc' : W.place φ x = some c := hc
        rw [hcell] at hc'
        exact Option.some.inj hc'
      refine ⟨hslot.inside, hslot.inner, hslot.declared, by simpa using hslot.allocated, ?_⟩
      rw [hlookup, if_pos ⟨rfl, rfl⟩]
      simp only [Array.getElem?_setIfInBounds_self_of_lt hslot.allocated, Option.join_some]
      exact .some hv
    · have hne : cell ≠ c := fun hcc => heq (h.apart φ ψ x y cell hcell (hcc ▸ hc))
      refine (h.slot ψ y c hc).mono hext (by rw [hlookup, if_neg heq]) ?_
      exact Array.getElem?_setIfInBounds_ne hne
  · intro y
    have hne : ¬ (φ = globalFrame ∧ x = y) := fun hh => hslot.inner hh.1
    rw [hlookup, if_neg hne]
    exact optionRel_mono (fun _ _ => Alike.mono hext) (h.globals y)
  · exact fun i y => optionRel_mono (fun _ _ => Alike.mono hext) (h.fields i y)
  · intro ψ hψ hi w hw
    rw [hlookup] at hw
    by_cases heq : φ = ψ ∧ x = thisName
    · rw [if_pos heq] at hw
      cases hw
      exact hthis heq.2
    · exact h.this ψ hψ hi w (by rwa [if_neg heq] at hw)
  · intro ψ hψ hi w hw
    rw [hlookup] at hw
    by_cases heq : φ = ψ ∧ x = superName
    · rw [if_pos heq] at hw
      cases hw
      exact hsuper heq.2
    · exact h.super ψ hψ hi w (by rwa [if_neg heq] at hw)

/-- **A value for a global name.** -/
theorem global (h : StoreMatch W s σ) {v : Value} {v' : Value Env} (x : String) (hv : Alike W v v') :
    StoreMatch W (s.define globalFrame x v) { σ with globals := σ.globals.put x v' } := by
  have hlt : globalFrame < s.frames.size := h.size ▸ h.nonempty
  have hlookup : ∀ ψ y, ψ ≠ globalFrame → (s.define globalFrame x v).lookup ψ y = s.lookup ψ y := by
    intro ψ y hψ
    rw [s.lookup_define hlt, if_neg fun hh => hψ hh.1.symm]
  refine ⟨?_, h.nonempty, ?_, h.root, ?_, h.placed, ?_, h.apart, ?_, h.objects, h.fields, ?_, ?_,
    h.idents⟩
  · rw [Store.size_define]
    exact h.size
  · intro ψ hψ
    rw [Store.parent?_define]
    exact h.parent ψ hψ
  · intro ψ hψ hi y
    rw [hlookup ψ y hi]
    exact h.bound ψ hψ hi y
  · intro ψ y cell hcell
    have hslot := h.slot ψ y cell hcell
    exact hslot.mono (.refl W) (hlookup ψ y hslot.inner) rfl
  · intro y
    rw [s.lookup_define hlt, NameTable.find?_put]
    by_cases hxy : x = y
    · rw [if_pos ⟨rfl, hxy⟩, if_pos hxy]
      exact .some hv
    · rw [if_neg fun hh => hxy hh.2, if_neg hxy]
      exact h.globals y
  · intro ψ hψ hi w hw
    exact h.this ψ hψ hi w (hlookup ψ _ hi ▸ hw)
  · intro ψ hψ hi w hw
    exact h.super ψ hψ hi w (hlookup ψ _ hi ▸ hw)

/-- What is not in the cells, the global names and the objects does not matter. -/
theorem congr (h : StoreMatch W s σ) {σ' : State} (hcells : σ'.cells = σ.cells)
    (hglobals : σ'.globals = σ.globals) (hobjects : σ'.objects = σ.objects)
    (hidents : σ'.idents = σ.idents) : StoreMatch W s σ' := by
  refine ⟨h.size, h.nonempty, h.parent, h.root, h.bound, h.placed, fun ψ y cell hcell => ?_, h.apart,
    ?_, ?_, fun i y => ?_, h.this, h.super, hidents.trans h.idents⟩
  · exact (h.slot ψ y cell hcell).mono (.refl W) rfl (by rw [hcells])
  · rw [hglobals]
    exact h.globals
  · rw [hobjects]
    exact h.objects
  · have hfield : field? σ' i y = field? σ i y := by rw [field?, field?, hobjects]
    rw [hfield]
    exact h.fields i y

/-- Another program changes nothing. -/
theorem text (h : StoreMatch W s σ) (p : Program) :
    StoreMatch { W with texts := p :: W.texts } s σ := by
  have he := Extends.text W p
  have hmono : ∀ v v', Alike W v v' → Alike { W with texts := p :: W.texts } v v' := fun _ _ =>
    Alike.mono he
  exact ⟨h.size, h.nonempty, h.parent, h.root, h.bound, h.placed,
    fun ψ y cell hcell => (h.slot ψ y cell hcell).mono he rfl rfl, h.apart,
    fun x => optionRel_mono hmono (h.globals x), h.objects,
    fun i x => optionRel_mono hmono (h.fields i x), h.this, h.super, h.idents⟩

/-- A new identity. -/
theorem ident (h : StoreMatch W s σ) :
    StoreMatch W s.newIdent.2 { σ with idents := σ.idents + 1 } :=
  ⟨h.size, h.nonempty, h.parent, h.root, h.bound, h.placed,
    fun ψ y cell hcell => (h.slot ψ y cell hcell).mono (.refl W) rfl rfl, h.apart, h.globals,
    h.objects, h.fields, h.this, h.super, congrArg (· + 1) h.idents⟩

/-- The field of an object that is not there has no value. -/
theorem getElem?_push_fields {α : Type} (objects : Array (NameTable α)) (i : Nat) (x : String) :
    ((objects.push {})[i]?.bind fun fields => fields.find? x) =
      objects[i]?.bind fun fields => fields.find? x := by
  rw [Array.getElem?_push]
  by_cases hi : i = objects.size
  · subst hi
    simp [NameTable.find?, NameTable.findIn]
  · rw [if_neg hi]

theorem field?_eq (s : Store) (i : Nat) (x : String) :
    s.field? i x = s.objects[i]?.bind fun fields => fields.find? x := by
  unfold Store.field?
  cases s.objects[i]? <;> rfl

theorem field?_eq' (σ : State) (i : Nat) (x : String) :
    field? σ i x = σ.objects[i]?.bind fun fields => fields.find? x := by
  unfold field?
  cases σ.objects[i]? <;> rfl

/-- A new object. -/
theorem object (h : StoreMatch W s σ) :
    StoreMatch W s.newObject.2 { σ with objects := σ.objects.push {} } := by
  refine ⟨h.size, h.nonempty, h.parent, h.root, h.bound, h.placed,
    fun ψ y cell hcell => (h.slot ψ y cell hcell).mono (.refl W) rfl rfl, h.apart, h.globals, ?_, ?_,
    h.this, h.super, h.idents⟩
  · simp [Store.newObject, h.objects]
  · intro i y
    have hi := h.fields i y
    rw [field?_eq, field?_eq'] at hi ⊢
    rw [Store.newObject, getElem?_push_fields, getElem?_push_fields]
    exact hi

/-- **A value for a field.** -/
theorem field (h : StoreMatch W s σ) {v : Value} {v' : Value Env} (i : Nat) (x : String)
    (hv : Alike W v v') :
    StoreMatch W (s.setField i x v)
      { σ with objects := σ.objects.modify i fun fields => fields.put x v' } := by
  refine ⟨h.size, h.nonempty, h.parent, h.root, h.bound, h.placed,
    fun ψ y cell hcell => (h.slot ψ y cell hcell).mono (.refl W) rfl rfl, h.apart, h.globals, ?_, ?_,
    h.this, h.super, h.idents⟩
  · simp [Store.setField, h.objects]
  · intro j y
    have hj := h.fields j y
    have hsize := h.objects
    rw [field?_eq, field?_eq'] at hj ⊢
    simp only [Store.setField, Array.getElem?_modify]
    by_cases hij : i = j
    · subst hij
      rw [if_pos rfl, if_pos rfl]
      by_cases hlt : i < s.objects.size
      · have hlt' : i < σ.objects.size := hsize ▸ hlt
        simp only [Array.getElem?_eq_getElem hlt, Array.getElem?_eq_getElem hlt', Option.map_some,
          Option.bind_some, NameTable.find?_put] at hj ⊢
        by_cases hxy : x = y
        · rw [if_pos hxy, if_pos hxy]
          exact .some hv
        · rw [if_neg hxy, if_neg hxy]
          exact hj
      · simp only [Array.getElem?_eq_none (Nat.not_lt.mp hlt),
          Array.getElem?_eq_none (hsize ▸ Nat.not_lt.mp hlt)]
        exact .none
    · rw [if_neg hij, if_neg hij]
      exact hj

/-! ### Names that are looked up -/

variable {awaiting : Option String} {scopes : List (NameTable Readiness)}
  {declares : List (List String)}

/-- A depth leads to the frame that is an instance of the scope at that depth. -/
theorem ancestor (h : StoreMatch W s σ) : ∀ {φ d : Nat} {awaiting : Option String}
    {scopes : List (NameTable Readiness)} {declares : List (List String)},
    Instances W φ awaiting scopes declares → depthIn scopes x = some d →
    ∃ ψ a scope names, s.ancestor d φ = some ψ ∧ scopes[d]? = some scope ∧
      scope.contains x = true ∧ Instance W ψ a scope names ∧ (a = some x → awaiting = some x) ∧
      placeOf W φ scopes x = W.place ψ x
  | _, _, _, [], _, _, hd => by simp [depthIn] at hd
  | φ, d, awaiting, scope :: scopes, names :: declares, ⟨hi, outer, _, hparent, hrest⟩, hd => by
    rw [depthIn_cons] at hd
    unfold placeOf
    by_cases hx : scope.contains x = true
    · rw [if_pos hx, Option.some.injEq] at hd
      subst hd
      exact ⟨φ, awaiting, scope, names, rfl, rfl, hx, hi, fun ha => ha, if_pos hx⟩
    · rw [if_neg hx, Option.map_eq_some_iff] at hd
      obtain ⟨d', hd', rfl⟩ := hd
      obtain ⟨ψ, a, scope', names', hψ, hget, hx', hi', ha, hp⟩ := h.ancestor hrest hd'
      refine ⟨ψ, a, scope', names', ?_, hget, hx', hi', fun hh => by simp [hh] at ha, ?_⟩
      · rw [Store.ancestor, h.parent φ hi.inside, hparent]
        exact hψ
      · rw [if_neg hx, hparent]
        exact hp

/-- A name that no scope holds has no cell. -/
theorem placeOf_none : ∀ {φ : Nat} {scopes : List (NameTable Readiness)},
    depthIn scopes x = none → placeOf W φ scopes x = none
  | _, [], _ => rfl
  | φ, scope :: scopes, hd => by
    rw [depthIn_cons] at hd
    unfold placeOf
    by_cases hx : scope.contains x = true
    · simp [hx] at hd
    · rw [if_neg hx, Option.map_eq_none_iff] at hd
      rw [if_neg hx]
      cases W.parent φ with
      | none => rfl
      | some outer => exact placeOf_none hd

/-- **A local name that is ready has alike values on both sides.** -/
theorem read (h : StoreMatch W s σ) {d : Nat} (hl : Linked W φ awaiting scopes declares ρ)
    (hd : depthIn scopes x = some d) (hready : ∀ scope ∈ scopes, scope.find? x ≠ some .declared)
    (hx : awaiting ≠ some x) :
    ∃ v v', s.getAt φ d x = .ok v ∧
      ((ρ.find? x).bind fun cell => σ.cells[cell]?.join) = some v' ∧ Alike W v v' ∧
      ∃ ψ < W.size, ψ ≠ globalFrame ∧ s.lookup ψ x = some v := by
  obtain ⟨ψ, a, scope, names, hψ, hget, hcontains, hi, ha, hp⟩ := h.ancestor hl.instances hd
  obtain ⟨cell, hcell⟩ := Option.isSome_iff_exists.mp (hi.placed x hcontains)
  have hslot := h.slot ψ x cell hcell
  -- a name of the scope is declared or defined, and this one is not only declared
  have hdefined : scope.find? x = some .defined := by
    obtain ⟨r, hr⟩ := Option.isSome_iff_exists.mp hcontains
    cases r with
    | defined => exact hr
    | declared => exact absurd hr (hready scope (List.mem_of_getElem? hget))
  have hbound : W.bound ψ x := hi.bound x hdefined fun hh => hx (ha hh)
  obtain ⟨v, hv⟩ := Option.isSome_iff_exists.mp ((h.bound ψ hi.inside hslot.inner x).mp hbound)
  have halike := hslot.alike
  rw [hv] at halike
  refine ⟨v, ?_⟩
  rw [Store.getAt, hψ, hl.names x, hp, hcell]
  simp only [hv, Option.bind_some]
  generalize σ.cells[cell]?.join = o at halike ⊢
  cases halike with
  | some halike => exact ⟨_, trivial, rfl, halike, ψ, hi.inside, hslot.inner, hv⟩

/-- A local name has a cell, and its depth leads to the frame of that cell. -/
theorem write (h : StoreMatch W s σ) {d : Nat} (hl : Linked W φ awaiting scopes declares ρ)
    (hd : depthIn scopes x = some d) :
    ∃ ψ cell, s.ancestor d φ = some ψ ∧ ρ.find? x = some cell ∧ W.place ψ x = some cell := by
  obtain ⟨ψ, a, scope, names, hψ, -, hcontains, hi, -, hp⟩ := h.ancestor hl.instances hd
  obtain ⟨cell, hcell⟩ := Option.isSome_iff_exists.mp (hi.placed x hcontains)
  exact ⟨ψ, cell, hψ, (hl.names x).trans (hp.trans hcell), hcell⟩

end StoreMatch

end Lexical
end ClassScript
