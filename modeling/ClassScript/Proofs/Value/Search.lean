/-
# Search and access by depth agree

Frames form a forest, for a frame is made inside one that was made before (`Store.Grown`). A name
can be looked up in it by a search from a frame outwards, which goes on until it finds a binding, and
in the frame a given number of parents out (`Store.Out`). The search stops at the least depth at
which there is a binding, so it gives what access by that depth gives, and overwrites the same
binding and nothing else (`Store.Sets`).

Key theorems: `Store.holder?_spec`, what a search finds, and `search_agrees_with_depth`.
-/
import Mathlib.Order.Bounds.Basic
import ClassScript.Value.Frames

namespace ClassScript

namespace Store

/-! ### The frames around a frame -/

/-- A store that operations on frames have made of an empty one, each on a frame that was there. -/
inductive Grown : Store → Prop
  | empty : Grown {}
  | step {s : Store} {op : FrameOp} (h : Grown s) (there : ∀ f ∈ op.frame?, f < s.frames.size) :
    Grown (s.perform op).2

/-- The frame `g` is `k` parents out of the frame `f`. -/
inductive Out (s : Store) : (k f g : Nat) → Prop
  | here (f : Nat) : Out s 0 f f
  | parent {k f p g : Nat} (h : s.parent? f = some p) (rest : Out s k p g) : Out s (k + 1) f g

/-- The frame `k` parents out of `f` binds the name `x`. -/
def Has (s : Store) (f : Nat) (x : String) (k : Nat) : Prop :=
  ∃ g, s.Out k f g ∧ (s.lookup g x).isSome = true

/-- There are `n` frames around `f`. -/
def Around (s : Store) (f n : Nat) : Prop := ∃ g, s.Out n f g ∧ s.parent? g = none

/-- From `s` to `s'` the name `x` was bound to `v` in the frame `f`, and nothing else has changed. -/
structure Sets (s : Store) (f : Nat) (x : String) (v : Value) (s' : Store) : Prop where
  size : s'.frames.size = s.frames.size
  parent : ∀ g, s'.parent? g = s.parent? g
  slots : ∀ g y, s'.lookup g y = if f = g ∧ x = y then some v else s.lookup g y
  objects : s'.objects = s.objects
  idents : s'.idents = s.idents

/-- Each frame was made after its parent. -/
def Ordered (s : Store) : Prop := ∀ f p, s.parent? f = some p → p < f

variable {s s' : Store} {f g p k n : Nat} {x : String} {v : Value}

theorem define_sets (h : f < s.frames.size) (x : String) (v : Value) :
    s.Sets f x v (s.define f x v) :=
  ⟨s.size_define f x v, fun g => s.parent?_define f g x v, fun g y => s.lookup_define h g x y v, rfl,
    rfl⟩

/-- **Frames are made inside older ones,** whatever operations come one after the other. -/
theorem Grown.ordered (h : s.Grown) : s.Ordered := by
  have hmade : ∀ {s : Store} {parent : Option Nat}, s.Ordered → (∀ p ∈ parent, p < s.frames.size) →
      (s.newFrame parent).2.Ordered := by
    intro s parent hs hparent f p hp
    rw [s.parent?_newFrame] at hp
    by_cases hf : f = s.frames.size
    · rw [if_pos hf] at hp
      exact hf ▸ hparent p hp
    · rw [if_neg hf] at hp
      exact hs f p hp
  have hbound : ∀ {s : Store} {g : Nat} {x : String} {v : Value}, s.Ordered →
      (s.define g x v).Ordered := by
    intro s g x v hs f p hp
    rw [s.parent?_define] at hp
    exact hs f p hp
  induction h with
  | empty =>
    intro f p hp
    simp [parent?] at hp
  | @step s op _ there ih =>
    cases op with
    | newGlobal => exact hmade ih (by simp)
    | newLocal parent => exact hmade ih there
    | define f x v => exact hbound ih
    | get f x =>
      unfold perform
      dsimp only
      cases s.get f x <;> exact ih
    | getAt f k x =>
      unfold perform
      dsimp only
      cases s.getAt f k x <;> exact ih
    | assign f x v =>
      unfold perform assign
      dsimp only
      cases s.holder? f x with
      | none => exact ih
      | some g => exact hbound ih
    | assignAt f k x v =>
      unfold perform assignAt
      dsimp only
      cases s.ancestor k f with
      | none => exact ih
      | some g => exact hbound ih

/-! ### Access by depth -/

theorem ancestor_eq_some : ∀ {k f : Nat}, s.ancestor k f = some g ↔ s.Out k f g
  | 0, f => by
    rw [ancestor, Option.some.injEq]
    constructor
    · rintro rfl
      exact .here f
    · rintro ⟨⟩
      rfl
  | k + 1, f => by
    rw [ancestor]
    constructor
    · intro h
      cases hp : s.parent? f with
      | none => simp [hp] at h
      | some p =>
        rw [hp] at h
        exact .parent hp (ancestor_eq_some.mp h)
    · intro h
      cases h with
      | parent hp rest =>
        rw [hp]
        exact ancestor_eq_some.mpr rest

theorem Out.unique (h : s.Out k f g) {g' : Nat} (h' : s.Out k f g') : g = g' :=
  Option.some.inj ((ancestor_eq_some.mpr h).symm.trans (ancestor_eq_some.mpr h'))

theorem Out.le (h : s.Out k f g) (hs : s.Ordered) : g ≤ f := by
  induction h with
  | here f => exact Nat.le_refl f
  | parent hp _ ih => exact Nat.le_trans ih (Nat.le_of_lt (hs _ _ hp))

/-- A frame is a number of parents away from one without a parent. -/
theorem Ordered.around (hs : s.Ordered) (f : Nat) : ∃ n, s.Around f n := by
  induction f using Nat.strongRecOn with
  | ind f ih =>
    cases hp : s.parent? f with
    | none => exact ⟨0, f, .here f, hp⟩
    | some p =>
      obtain ⟨n, g, hout, hg⟩ := ih p (hs f p hp)
      exact ⟨n + 1, g, .parent hp hout, hg⟩

/-- **A depth leads somewhere exactly if there are as many parents.** -/
theorem Around.out_iff (h : s.Around f n) : (∃ g, s.Out k f g) ↔ k ≤ n := by
  obtain ⟨g, hout, hg⟩ := h
  induction hout generalizing k with
  | here f =>
    constructor
    · rintro ⟨g', hout'⟩
      cases hout' with
      | here => exact Nat.le_refl 0
      | parent hp => simp [hp] at hg
    · intro hk
      obtain rfl := Nat.le_zero.mp hk
      exact ⟨f, .here f⟩
  | @parent n f p g hp _ ih =>
    cases k with
    | zero => exact ⟨fun _ => Nat.zero_le _, fun _ => ⟨f, .here f⟩⟩
    | succ k =>
      constructor
      · rintro ⟨g', hout'⟩
        cases hout' with
        | parent hp' rest =>
          obtain rfl : p = _ := Option.some.inj (hp.symm.trans hp')
          exact Nat.succ_le_succ ((ih hg).mp ⟨g', rest⟩)
      · intro hk
        obtain ⟨g', rest⟩ := (ih hg).mpr (Nat.le_of_succ_le_succ hk)
        exact ⟨g', .parent hp rest⟩

theorem perform_getAt (h : s.Out k f g) (x : String) : s.perform (.getAt f k x) =
    (match s.lookup g x with
      | some v => .value v
      | none => .broken (.missingName x k), s) := by
  unfold perform getAt
  dsimp only
  rw [ancestor_eq_some.mpr h]
  dsimp only
  cases s.lookup g x <;> rfl

theorem perform_assignAt (h : s.Out k f g) (x : String) (v : Value) :
    s.perform (.assignAt f k x v) = (.done, s.define g x v) := by
  unfold perform assignAt
  dsimp only
  rw [ancestor_eq_some.mpr h]

/-- Behind the outermost frame there is nothing. -/
theorem perform_past (h : ∀ g, ¬ s.Out k f g) (x : String) (v : Value) :
    s.perform (.getAt f k x) = (.broken .pastGlobals, s) ∧
      s.perform (.assignAt f k x v) = (.broken .pastGlobals, s) := by
  have hnone : s.ancestor k f = none := by
    cases hg : s.ancestor k f with
    | none => rfl
    | some g => exact absurd (ancestor_eq_some.mp hg) (h g)
  unfold perform getAt assignAt
  simp only [hnone, and_self]

/-! ### Search -/

theorem has_zero : s.Has f x 0 ↔ (s.lookup f x).isSome = true := by
  constructor
  · rintro ⟨g, hout, hg⟩
    cases hout
    exact hg
  · exact fun h => ⟨f, .here f, h⟩

theorem has_succ : s.Has f x (k + 1) ↔ ∃ p, s.parent? f = some p ∧ s.Has p x k := by
  constructor
  · rintro ⟨g, hout, hg⟩
    cases hout with
    | parent hp rest => exact ⟨_, hp, g, rest, hg⟩
  · rintro ⟨p, hp, g, rest, hg⟩
    exact ⟨g, .parent hp rest, hg⟩

/-- A search goes on from the parent of a frame that does not bind the name. -/
theorem holder?_further (hs : s.Ordered) (hx : s.lookup f x = none) :
    s.holder? f x = (s.parent? f).bind fun p => s.holder? p x := by
  rw [holder?, chain, List.find?_cons_of_neg (by simp [hx])]
  cases hp : s.parent? f with
  | none => rfl
  | some p =>
    dsimp only
    rw [if_pos (hs f p hp)]
    rfl

/-- **What a search finds:** the binding at the least depth, or nothing if there is none at any
depth. -/
theorem holder?_spec (hs : s.Ordered) (x : String) (f : Nat) :
    (s.holder? f x = none ∧ ∀ k, ¬ s.Has f x k) ∨
      ∃ k g, s.holder? f x = some g ∧ s.Out k f g ∧ IsLeast {k | s.Has f x k} k := by
  induction f using Nat.strongRecOn with
  | ind f ih =>
    by_cases hx : (s.lookup f x).isSome = true
    · refine .inr ⟨0, f, ?_, .here f, has_zero.mpr hx, fun k _ => Nat.zero_le k⟩
      rw [holder?, chain, List.find?_cons_of_pos (by simpa using hx)]
    have hnone : s.lookup f x = none := by simpa using hx
    have hzero : ¬ s.Has f x 0 := fun h => hx (has_zero.mp h)
    rw [holder?_further hs hnone]
    cases hp : s.parent? f with
    | none =>
      refine .inl ⟨rfl, fun k hk => ?_⟩
      cases k with
      | zero => exact hzero hk
      | succ k =>
        obtain ⟨p, hp', -⟩ := has_succ.mp hk
        rw [hp] at hp'
        cases hp'
    | some p =>
      have hsucc : ∀ k, s.Has f x (k + 1) ↔ s.Has p x k := fun k => by simp [has_succ, hp]
      rcases ih p (hs f p hp) with ⟨hfind, hall⟩ | ⟨k, g, hfind, hout, hhas, hleast⟩
      · refine .inl ⟨hfind, fun k hk => ?_⟩
        cases k with
        | zero => exact hzero hk
        | succ k => exact hall k ((hsucc k).mp hk)
      · refine .inr ⟨k + 1, g, hfind, .parent hp hout, (hsucc k).mpr hhas, fun j hj => ?_⟩
        cases j with
        | zero => exact absurd hj hzero
        | succ j => exact Nat.succ_le_succ (hleast ((hsucc j).mp hj))

/-- A search for a name that has a binding at the least depth `k`. -/
theorem perform_found (hs : s.Ordered) (h : IsLeast {k | s.Has f x k} k) : ∃ g v, s.Out k f g ∧
    s.lookup g x = some v ∧ s.perform (.get f x) = (.value v, s) ∧
      ∀ w, s.perform (.assign f x w) = (.done, s.define g x w) := by
  rcases holder?_spec hs x f with ⟨-, hall⟩ | ⟨k', g, hfind, hout, hleast⟩
  · exact absurd h.1 (hall k)
  obtain rfl := hleast.unique h
  obtain ⟨g', hout', hbound⟩ := h.1
  obtain rfl := hout.unique hout'
  obtain ⟨v, hv⟩ := Option.isSome_iff_exists.mp hbound
  refine ⟨g, v, hout, hv, ?_, fun w => ?_⟩
  · simp only [perform, get, hfind, Option.bind_some, hv]
  · simp only [perform, assign, hfind, Option.map_some]

/-- A search for a name that has no binding fails and changes nothing. -/
theorem perform_missed (hs : s.Ordered) (h : ∀ k, ¬ s.Has f x k) :
    s.perform (.get f x) = (.failed (.undefinedVariable x), s) ∧
      ∀ v, s.perform (.assign f x v) = (.failed (.undefinedVariable x), s) := by
  rcases holder?_spec hs x f with ⟨hfind, -⟩ | ⟨k, -, -, -, hleast⟩
  · refine ⟨?_, fun v => ?_⟩
    · simp only [perform, get, hfind, Option.bind_none]
    · simp only [perform, assign, hfind, Option.map_none]
  · exact absurd hleast.1 (h k)

theorem exists_least (hs : s.Ordered) (h : ∃ k, s.Has f x k) : ∃ k, IsLeast {k | s.Has f x k} k := by
  rcases holder?_spec hs x f with ⟨-, hall⟩ | ⟨k, -, -, -, hleast⟩
  · obtain ⟨k, hk⟩ := h
    exact absurd hk (hall k)
  · exact ⟨k, hleast⟩

/-! ### Both together -/

/-- A name is found exactly if a frame on the way out binds it. -/
theorem perform_get_iff (hs : s.Ordered) :
    (∃ v, s.perform (.get f x) = (.value v, s)) ↔ ∃ k, s.Has f x k := by
  constructor
  · rintro ⟨v, hv⟩
    by_contra hnone
    rw [(perform_missed hs (not_exists.mp hnone)).1] at hv
    cases hv
  · intro hhas
    obtain ⟨k, hleast⟩ := exists_least hs hhas
    obtain ⟨g, v, -, -, hget, -⟩ := perform_found hs hleast
    exact ⟨v, hget⟩

/-- And so it is with overwriting. -/
theorem perform_assign_iff (hs : s.Ordered) (w : Value) :
    (∃ s', s.perform (.assign f x w) = (.done, s')) ↔ ∃ k, s.Has f x k := by
  constructor
  · rintro ⟨s', hw⟩
    by_contra hnone
    rw [(perform_missed hs (not_exists.mp hnone)).2] at hw
    cases hw
  · intro hhas
    obtain ⟨k, hleast⟩ := exists_least hs hhas
    obtain ⟨g, -, -, -, -, hassign⟩ := perform_found hs hleast
    exact ⟨_, hassign w⟩

theorem Out.lt_size (h : s.Out k f g) (hs : s.Ordered) (hf : f < s.frames.size) :
    g < s.frames.size :=
  Nat.lt_of_le_of_lt (h.le hs) hf

/-- **At the least depth with a binding** search and access by depth do the same. -/
theorem perform_least (hs : s.Ordered) (hf : f < s.frames.size) (h : IsLeast {k | s.Has f x k} k) :
    s.perform (.get f x) = s.perform (.getAt f k x) ∧
      ∃ g v, s.Out k f g ∧ s.lookup g x = some v ∧ s.perform (.get f x) = (.value v, s) ∧
      ∀ w, s.perform (.assign f x w) = s.perform (.assignAt f k x w) ∧
        ∃ s', s.perform (.assign f x w) = (.done, s') ∧ s.Sets g x w s' := by
  obtain ⟨g, v, hout, hv, hget, hassign⟩ := perform_found hs h
  have hgetAt : s.perform (.getAt f k x) = (.value v, s) := by rw [perform_getAt hout, hv]
  refine ⟨hget.trans hgetAt.symm, g, v, hout, hv, hget, fun w => ⟨?_, _, hassign w, ?_⟩⟩
  · rw [hassign, perform_assignAt hout]
  · exact define_sets (hout.lt_size hs hf) x w

/-- **Access by depth** fails behind the outermost frame, and is that to a frame up to there. -/
theorem perform_depth (hs : s.Ordered) (hf : f < s.frames.size) (x : String) :
    ∃ n, s.Around f n ∧ ∀ k,
      (n < k → s.perform (.getAt f k x) = (.broken .pastGlobals, s) ∧
        ∀ w, s.perform (.assignAt f k x w) = (.broken .pastGlobals, s)) ∧
      (k ≤ n → ∃ g, s.Out k f g ∧
        s.perform (.getAt f k x) = (match s.lookup g x with
          | some v => .value v
          | none => .broken (.missingName x k), s) ∧
        ∀ w, ∃ s', s.perform (.assignAt f k x w) = (.done, s') ∧ s.Sets g x w s') := by
  obtain ⟨n, haround⟩ := hs.around f
  refine ⟨n, haround, fun k => ⟨fun hk => ?_, fun hk => ?_⟩⟩
  · have hpast : ∀ g, ¬ s.Out k f g := fun g hout =>
      Nat.not_le_of_lt hk (haround.out_iff.mp ⟨g, hout⟩)
    exact ⟨(perform_past hpast x .nil).1, fun w => (perform_past hpast x w).2⟩
  · obtain ⟨g, hout⟩ := haround.out_iff.mpr hk
    refine ⟨g, hout, perform_getAt hout x, fun w => ⟨_, perform_assignAt hout x w, ?_⟩⟩
    exact define_sets (hout.lt_size hs hf) x w

end Store

/-- **Search and access by depth agree.** Whatever operations have made a forest of frames, from each
frame `f` a name is found, and can be overwritten, if and only if a frame on the way out binds it. Then
both do what access by the least depth of such a frame does, and a write changes that one binding
only. Otherwise both fail and change nothing. A definition changes its own slot only. And a depth
leads to the frame that many parents out; it fails only if there are fewer of them, or on reading a
name that this frame does not bind. -/
theorem search_agrees_with_depth {s : Store} (h : s.Grown) {f : Nat} (hf : f < s.frames.size)
    (x : String) :
    ((∃ v, s.perform (.get f x) = (.value v, s)) ↔ ∃ k, s.Has f x k) ∧
    (∀ w, (∃ s', s.perform (.assign f x w) = (.done, s')) ↔ ∃ k, s.Has f x k) ∧
    (∀ k, IsLeast {k | s.Has f x k} k → s.perform (.get f x) = s.perform (.getAt f k x) ∧
      ∃ g v, s.Out k f g ∧ s.lookup g x = some v ∧ s.perform (.get f x) = (.value v, s) ∧
      ∀ w, s.perform (.assign f x w) = s.perform (.assignAt f k x w) ∧
        ∃ s', s.perform (.assign f x w) = (.done, s') ∧ s.Sets g x w s') ∧
    ((∀ k, ¬ s.Has f x k) → s.perform (.get f x) = (.failed (.undefinedVariable x), s) ∧
      ∀ w, s.perform (.assign f x w) = (.failed (.undefinedVariable x), s)) ∧
    (∀ w, ∃ s', s.perform (.define f x w) = (.done, s') ∧ s.Sets f x w s') ∧
    ∃ n, s.Around f n ∧ ∀ k,
      (n < k → s.perform (.getAt f k x) = (.broken .pastGlobals, s) ∧
        ∀ w, s.perform (.assignAt f k x w) = (.broken .pastGlobals, s)) ∧
      (k ≤ n → ∃ g, s.Out k f g ∧
        s.perform (.getAt f k x) = (match s.lookup g x with
          | some v => .value v
          | none => .broken (.missingName x k), s) ∧
        ∀ w, ∃ s', s.perform (.assignAt f k x w) = (.done, s') ∧ s.Sets g x w s') := by
  have hs := h.ordered
  refine ⟨Store.perform_get_iff hs, Store.perform_assign_iff hs, ?_, Store.perform_missed hs, ?_, ?_⟩
  · exact fun k hleast => Store.perform_least hs hf hleast
  · exact fun w => ⟨_, rfl, Store.define_sets hf x w⟩
  · exact Store.perform_depth hs hf x

/-- Two local frames in one frame: the name that is assigned to from the second one is bound in the
frame around both, and its binding in the first one stays as it is. -/
theorem search_agrees_with_depth_shared :
    let ops : List FrameOp := [.newGlobal, .newLocal 0, .newLocal 0, .define 0 "x" .nil,
      .define 1 "x" (.bool true)]
    let s : Store := ops.foldl (fun s op => (s.perform op).2) {}
    s.Grown ∧ 2 < s.frames.size ∧ IsLeast {k | s.Has 2 "x" k} 1 ∧
      s.perform (.assign 2 "x" (.bool false)) = s.perform (.assignAt 2 1 "x" (.bool false)) ∧
      ∃ s', s.perform (.assign 2 "x" (.bool false)) = (.done, s') ∧
        s'.lookup 0 "x" = some (.bool false) ∧ s'.lookup 1 "x" = some (.bool true) := by
  intro ops s
  have hgrown : s.Grown := by
    refine .step (.step (.step (.step (.step .empty ?_) ?_) ?_) ?_) ?_ <;> rintro _ ⟨⟩ <;> decide
  have hsize : 2 < s.frames.size := by decide
  have hparent : s.parent? 2 = some 0 := rfl
  have hleast : IsLeast {k | s.Has 2 "x" k} 1 := by
    refine ⟨Store.has_succ.mpr ⟨0, hparent, Store.has_zero.mpr rfl⟩, fun k hk => ?_⟩
    cases k with
    | zero => cases Store.has_zero.mp hk
    | succ k => exact Nat.succ_le_succ (Nat.zero_le k)
  obtain ⟨-, g, v, hout, -, -, hassign⟩ := (search_agrees_with_depth hgrown hsize "x").2.2.1 1 hleast
  obtain ⟨hsame, s', hdone, hsets⟩ := hassign (.bool false)
  obtain rfl : 0 = g := Store.Out.unique (.parent hparent (.here 0)) hout
  refine ⟨hgrown, hsize, hleast, hsame, s', hdone, ?_, ?_⟩
  · rw [hsets.slots, if_pos ⟨rfl, rfl⟩]
  · rw [hsets.slots, if_neg (by decide)]
    rfl

end ClassScript
