/-
# Frames with keywords

A frame that holds `this` or `super` is `Keyed`, any other one is `Ordinary`. As the store
changes, no keyed frame is changed and no frame that is there gets a keyword
(`Store.Later`), so what is known of a keyed frame stays true.

From a frame outwards, the nearest `super` is in one frame or nowhere (`Store.Leads`). The
code of a function runs in frames inside of the function's own environment, without
keywords in between (`Store.Within`), and so it has the same `super` as the environment
(`Store.Within.leads`, `Store.Within.holder`).
-/
import ClassScript.Machine.Evaluation
import ClassScript.Proofs.Syntax.Proper

namespace ClassScript

/-! ### Keywords in frames -/

namespace Store

/-- The frame is a local one and holds `this` or `super`. -/
def Keyed (s : Store) (φ : Nat) : Prop :=
  φ ≠ globalFrame ∧ ((s.lookup φ thisName).isSome = true ∨ (s.lookup φ superName).isSome = true)

/-- The frame is there and holds neither `this` nor `super`, unless it is the global one. -/
def Ordinary (s : Store) (φ : Nat) : Prop := φ < s.frames.size ∧ ¬ s.Keyed φ

/-- From `s` to `s'`, frames were added and changed, but no frame that holds a keyword was changed
and none that was there got one. -/
structure Later (s s' : Store) : Prop where
  size : s.frames.size ≤ s'.frames.size
  parent : ∀ φ < s.frames.size, s'.parent? φ = s.parent? φ
  kept : ∀ φ, s.Keyed φ → s'.frames[φ]? = s.frames[φ]?
  keyed : ∀ φ < s.frames.size, s'.Keyed φ → s.Keyed φ

/-- From `s` to `s'` not even a new frame got a keyword. -/
structure Moves (s s' : Store) : Prop extends Later s s' where
  none : ∀ φ, s'.Keyed φ → s.Keyed φ

variable {s s' s'' : Store} {φ : Nat} {x : String}

theorem lt_of_lookup {v : Value} (h : s.lookup φ x = some v) : φ < s.frames.size := by
  unfold lookup at h
  cases hf : s.frames[φ]? with
  | none =>
    rw [hf] at h
    cases h
  | some f => exact (Array.getElem?_eq_some_iff.mp hf).1

theorem lt_of_parent {outer : Nat} (h : s.parent? φ = some outer) : φ < s.frames.size := by
  unfold parent? at h
  cases hf : s.frames[φ]? with
  | none =>
    rw [hf] at h
    cases h
  | some f => exact (Array.getElem?_eq_some_iff.mp hf).1

theorem Keyed.lt (h : s.Keyed φ) : φ < s.frames.size := by
  rcases h.2 with hx | hx
  · obtain ⟨v, hv⟩ := Option.isSome_iff_exists.mp hx
    exact lt_of_lookup hv
  · obtain ⟨v, hv⟩ := Option.isSome_iff_exists.mp hx
    exact lt_of_lookup hv

/-- What a frame holds is all that counts. -/
theorem Keyed.congr (h : s.Keyed φ) (heq : s'.frames[φ]? = s.frames[φ]?) : s'.Keyed φ := by
  unfold Keyed lookup at h ⊢
  rwa [heq]

theorem Ordinary.global (h : globalFrame < s.frames.size) : s.Ordinary globalFrame :=
  ⟨h, fun hk => hk.1 rfl⟩

namespace Later

theorem refl (s : Store) : Later s s :=
  ⟨Nat.le_refl _, fun _ _ => rfl, fun _ _ => rfl, fun _ _ h => h⟩

theorem trans (h : Later s s') (h' : Later s' s'') : Later s s'' := by
  have hlt : ∀ {φ}, φ < s.frames.size → φ < s'.frames.size := fun hφ => Nat.lt_of_lt_of_le hφ h.size
  refine ⟨Nat.le_trans h.size h'.size, fun φ hφ => ?_, fun φ hφ => ?_, fun φ hφ hk => ?_⟩
  · rw [h'.parent φ (hlt hφ), h.parent φ hφ]
  · rw [h'.kept φ (hφ.congr (h.kept φ hφ)), h.kept φ hφ]
  · exact h.keyed φ hφ (h'.keyed φ (hlt hφ) hk)

theorem ordinary (h : Later s s') (ho : s.Ordinary φ) : s'.Ordinary φ :=
  ⟨Nat.lt_of_lt_of_le ho.1 h.size, fun hk => ho.2 (h.keyed φ ho.1 hk)⟩

/-- Frames stay where they are. -/
theorem ancestor (h : Later s s') : ∀ {d φ ψ : Nat}, s.ancestor d φ = some ψ →
    s'.ancestor d φ = some ψ
  | 0, _, _, hψ => hψ
  | d + 1, φ, ψ, hψ => by
    rw [Store.ancestor] at hψ ⊢
    cases hp : s.parent? φ with
    | none => simp [hp] at hψ
    | some outer =>
      rw [hp] at hψ
      rw [h.parent φ (lt_of_parent hp), hp]
      exact h.ancestor hψ

end Later

namespace Moves

/-- A change of the objects and of the identities. -/
theorem of_frames (h : s'.frames = s.frames) : Moves s s' := by
  have hkeyed : ∀ {φ}, s'.Keyed φ → s.Keyed φ := fun hk => hk.congr (by rw [h])
  refine ⟨⟨Nat.le_of_eq (by rw [h]), fun φ _ => ?_, fun φ _ => by rw [h], fun φ _ => hkeyed⟩,
    fun φ => hkeyed⟩
  unfold parent?
  rw [h]

theorem refl (s : Store) : Moves s s := .of_frames rfl

/-- A name is bound in a frame. -/
theorem define (ho : s.Ordinary φ) (hx : φ = globalFrame ∨ ProperName x) (v : Value) :
    Moves s (s.define φ x v) := by
  have hkeyed : ∀ {ψ}, (s.define φ x v).Keyed ψ → s.Keyed ψ := by
    intro ψ hk
    obtain ⟨hψ, hk⟩ := hk
    have hother : ∀ y, ¬ ProperName y →
        (s.define φ x v).lookup ψ y = s.lookup ψ y := by
      intro y hy
      rw [s.lookup_define ho.1, if_neg]
      rintro ⟨rfl, rfl⟩
      rcases hx with hx | hx
      · exact hψ hx
      · exact hy hx
    rw [hother _ fun h => h.1 rfl, hother _ fun h => h.2 rfl] at hk
    exact ⟨hψ, hk⟩
  refine ⟨⟨Nat.le_of_eq (s.size_define φ x v).symm, fun ψ _ => s.parent?_define φ ψ x v, fun ψ hk => ?_,
    fun ψ _ => hkeyed⟩, fun ψ => hkeyed⟩
  have hne : ¬ φ = ψ := fun h => ho.2 (h ▸ hk)
  rw [s.getElem?_define, if_neg hne]

end Moves

/-! ### New frames -/

theorem getElem?_newFrame (s : Store) (parent : Option Nat) (names : NameTable Value) {φ : Nat}
    (h : φ < s.frames.size) : (s.newFrame parent names).2.frames[φ]? = s.frames[φ]? := by
  simp only [newFrame, Array.getElem?_push, if_neg (Nat.ne_of_lt h)]

theorem size_newFrame (s : Store) (parent : Option Nat) (names : NameTable Value) :
    (s.newFrame parent names).2.frames.size = s.frames.size + 1 := by
  simp [newFrame]

/-- A new frame changes none that is there. -/
theorem Later.newFrame (s : Store) (parent : Option Nat) (names : NameTable Value) :
    Later s (s.newFrame parent names).2 := by
  have hold := fun {φ} (h : φ < s.frames.size) => s.getElem?_newFrame parent names h
  refine ⟨by rw [s.size_newFrame]; omega, fun φ hφ => ?_, fun φ hk => hold hk.lt,
    fun φ hφ hk => hk.congr (hold hφ).symm⟩
  unfold parent?
  rw [hold hφ]

/-- A keyed frame of a store with a new frame is an old one or the new one. -/
theorem Keyed.newFrame {parent : Option Nat} {names : NameTable Value}
    (h : (s.newFrame parent names).2.Keyed φ) : s.Keyed φ ∨ φ = s.frames.size := by
  have hlt := h.lt
  rw [s.size_newFrame] at hlt
  by_cases hφ : φ = s.frames.size
  · exact .inr hφ
  · exact .inl ((Later.newFrame s parent names).keyed φ (by omega) h)

/-- A new frame for names that are no keywords. -/
theorem Moves.newFrame {names : NameTable Value} (parent : Option Nat)
    (hnames : ∀ x, ¬ ProperName x → names.find? x = Option.none) :
    Moves s (s.newFrame parent names).2 := by
  refine ⟨.newFrame s parent names, fun φ hk => ?_⟩
  rcases hk.newFrame with hold | rfl
  · exact hold
  · obtain ⟨-, hk⟩ := hk
    simp only [s.lookup_newFrame, if_true] at hk
    rw [hnames _ fun h => h.1 rfl, hnames _ fun h => h.2 rfl] at hk
    rcases hk with hk | hk
    · cases hk
    · cases hk

/-! ### The nearest `super` -/

/-- From the frame outwards, the nearest `super` is in the frame `target`, if there is a local one. -/
inductive Leads (s : Store) : Nat → Option Nat → Prop
  | global : Leads s globalFrame none
  | here {φ : Nat} (inner : φ ≠ globalFrame) (bound : (s.lookup φ superName).isSome = true) :
    Leads s φ (some φ)
  | out {φ outer : Nat} {target : Option Nat} (inner : φ ≠ globalFrame)
    (free : s.lookup φ superName = none) (parent : s.parent? φ = some outer)
    (rest : Leads s outer target) : Leads s φ target

theorem Leads.unique {target target' : Option Nat} (h : s.Leads φ target) (h' : s.Leads φ target') :
    target = target' := by
  induction h with
  | global =>
    cases h' with
    | global => rfl
    | here inner => exact absurd rfl inner
    | out inner => exact absurd rfl inner
  | here inner bound =>
    cases h' with
    | global => exact absurd rfl inner
    | here => rfl
    | out _ free => simp [free] at bound
  | out inner free parent _ ih =>
    cases h' with
    | global => exact absurd rfl inner
    | here _ bound => simp [free] at bound
    | out _ _ parent' rest' =>
      rw [parent] at parent'
      cases parent'
      exact ih rest'

namespace Later

theorem lookup_eq (h : Later s s') (hk : s.Keyed φ) (x : String) : s'.lookup φ x = s.lookup φ x := by
  unfold lookup
  rw [h.kept φ hk]

/-- What a local frame that is there has no `super` for does not get one. -/
theorem free (h : Later s s') (hφ : φ < s.frames.size) (inner : φ ≠ globalFrame)
    (hfree : s.lookup φ superName = none) : s'.lookup φ superName = none := by
  by_contra hne
  obtain ⟨v, hv⟩ := Option.ne_none_iff_exists'.mp hne
  have hkeyed := h.keyed φ hφ ⟨inner, .inr (by simp [hv])⟩
  rw [h.lookup_eq hkeyed, hfree] at hv
  cases hv

theorem leads (h : Later s s') {target : Option Nat} (hl : s.Leads φ target) : s'.Leads φ target := by
  induction hl with
  | global => exact .global
  | here inner bound => exact .here inner (by rwa [h.lookup_eq ⟨inner, .inr bound⟩])
  | out inner free parent _ ih =>
    have hlt := lt_of_parent parent
    exact .out inner (h.free hlt inner free) (by rwa [h.parent _ hlt]) ih

end Later

/-- A search from a frame goes on outside of it, if it does not hold the name. -/
theorem holder?_out {χ : Nat} (free : s.lookup φ x = none) (h : s.holder? φ x = some χ) :
    ∃ outer < φ, s.parent? φ = some outer ∧ s.holder? outer x = some χ := by
  unfold holder? at h
  rw [chain, List.find?_cons_of_neg (by simp [free])] at h
  cases hp : s.parent? φ with
  | none => simp [hp] at h
  | some outer =>
    simp only [hp] at h
    by_cases hlt : outer < φ
    · rw [if_pos hlt] at h
      exact ⟨outer, hlt, rfl, h⟩
    · rw [if_neg hlt] at h
      cases h

/-- What a search finds is where the frame leads. -/
theorem Leads.of_holder {χ : Nat} (hχ : χ ≠ globalFrame) : ∀ {φ : Nat},
    s.holder? φ superName = some χ → s.Leads φ (some χ) := by
  intro φ
  induction φ using Nat.strongRecOn with
  | ind φ ih =>
    intro h
    have hinner : φ ≠ globalFrame := by
      rintro rfl
      unfold holder? at h
      rw [chain_global] at h
      exact hχ (List.mem_singleton.mp (List.mem_of_find?_eq_some h))
    cases hl : s.lookup φ superName with
    | none =>
      obtain ⟨outer, hlt, hparent, hrest⟩ := holder?_out hl h
      exact .out hinner hl hparent (ih outer hlt hrest)
    | some v =>
      unfold holder? at h
      rw [chain, List.find?_cons_of_pos (by simp [hl])] at h
      cases h
      exact .here hinner (by simp [hl])

/-! ### The frames of running code -/

/-- The frame that the code of a function stands in, or code outside of all functions. -/
def environment : Option Closure → Nat
  | none => globalFrame
  | some k => k.env

/-- The frame is one that code of the function runs in: the frame of a call of it, or that of a block
in there. Code outside of all functions runs in the global frame or in that of a block. -/
inductive Within (s : Store) : Option Closure → Nat → Prop
  | top (nonempty : globalFrame < s.frames.size) : Within s none globalFrame
  | body {k : Closure} {φ : Nat} (ordinary : s.Ordinary φ) (inner : φ ≠ globalFrame)
    (parent : s.parent? φ = some k.env) : Within s (some k) φ
  | block {within : Option Closure} {φ outer : Nat} (ordinary : s.Ordinary φ)
    (inner : φ ≠ globalFrame) (parent : s.parent? φ = some outer) (rest : Within s within outer) :
    Within s within φ

theorem Ordinary.free (h : s.Ordinary φ) (inner : φ ≠ globalFrame) :
    s.lookup φ superName = none := by
  by_contra hne
  obtain ⟨v, hv⟩ := Option.ne_none_iff_exists'.mp hne
  exact h.2 ⟨inner, .inr (by simp [hv])⟩

namespace Within

variable {within : Option Closure}

theorem ordinary (h : s.Within within φ) : s.Ordinary φ := by
  cases h with
  | top nonempty => exact .global nonempty
  | body ordinary => exact ordinary
  | block ordinary => exact ordinary

theorem later (h : s.Within within φ) (hl : Later s s') : s'.Within within φ := by
  induction h with
  | top nonempty => exact .top (Nat.lt_of_lt_of_le nonempty hl.size)
  | body ordinary inner parent =>
    exact .body (hl.ordinary ordinary) inner (by rwa [hl.parent _ ordinary.1])
  | block ordinary inner parent _ ih =>
    exact .block (hl.ordinary ordinary) inner (by rwa [hl.parent _ ordinary.1]) ih

/-- **Code leads where its environment does.** -/
theorem leads {target : Option Nat} (h : s.Within within φ)
    (hl : s.Leads (environment within) target) : s.Leads φ target := by
  induction h with
  | top => exact hl
  | body ordinary inner parent => exact .out inner (ordinary.free inner) parent hl
  | block ordinary inner parent _ ih => exact .out inner (ordinary.free inner) parent (ih hl)

/-- **Code finds the `super` that is found from its environment.** -/
theorem holder {χ : Nat} (h : s.Within within φ) (hχ : s.holder? φ superName = some χ) :
    s.holder? (environment within) superName = some χ := by
  induction h with
  | top => exact hχ
  | body ordinary inner parent =>
    obtain ⟨outer, -, hparent, hrest⟩ := holder?_out (ordinary.free inner) hχ
    rw [parent] at hparent
    cases hparent
    exact hrest
  | block ordinary inner parent _ ih =>
    obtain ⟨outer, -, hparent, hrest⟩ := holder?_out (ordinary.free inner) hχ
    rw [parent] at hparent
    cases hparent
    exact ih hrest

end Within
end Store
end ClassScript
