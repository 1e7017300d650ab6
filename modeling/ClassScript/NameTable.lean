/-
# Tables of names

A finite map from names to values, in the order in which the names were first put
in. Scopes, frames, objects and classes are made of these.

Key lemma: `find?_put`, which says what a put does to every name.
-/

namespace ClassScript

/-- A finite map from names. -/
structure NameTable (α : Type) where
  entries : List (String × α) := []
  deriving Inhabited

namespace NameTable

variable {α : Type}

def empty : NameTable α := {}

/-- The value of the first entry for `name`. -/
def findIn (name : String) : List (String × α) → Option α
  | [] => none
  | (n, a) :: rest => if n = name then some a else findIn name rest

/-- The entries with the value of `name` replaced, or added behind them. -/
def putIn (name : String) (a : α) : List (String × α) → List (String × α)
  | [] => [(name, a)]
  | (n, b) :: rest => if n = name then (n, a) :: rest else (n, b) :: putIn name a rest

/-- The value of a name. -/
def find? (t : NameTable α) (name : String) : Option α := findIn name t.entries

def contains (t : NameTable α) (name : String) : Bool := (t.find? name).isSome

/-- The table with `name` mapped to `a`, whether or not the name was there. -/
def put (t : NameTable α) (name : String) (a : α) : NameTable α := ⟨putIn name a t.entries⟩

/-- The table of a list of entries, of which later ones win. -/
def ofList (entries : List (String × α)) : NameTable α :=
  entries.foldl (fun t e => t.put e.1 e.2) empty

@[simp] theorem find?_empty (name : String) : (empty : NameTable α).find? name = none := rfl

theorem findIn_putIn (name other : String) (a : α) (entries : List (String × α)) :
    findIn other (putIn name a entries) =
      if name = other then some a else findIn other entries := by
  induction entries with
  | nil => rfl
  | cons e rest ih =>
    obtain ⟨n, b⟩ := e
    by_cases hn : n = name
    · subst hn
      by_cases ho : n = other <;> simp [putIn, findIn, ho]
    · by_cases ho : n = other
      · subst ho
        simp [putIn, findIn, hn, Ne.symm hn]
      · simp [putIn, findIn, hn, ho, ih]

/-- **A put maps its own name to the value and leaves all other names alone.** -/
theorem find?_put (t : NameTable α) (name other : String) (a : α) :
    (t.put name a).find? other = if name = other then some a else t.find? other :=
  findIn_putIn name other a t.entries

@[simp] theorem find?_put_self (t : NameTable α) (name : String) (a : α) :
    (t.put name a).find? name = some a := by
  simp [find?_put]

theorem find?_put_of_ne (t : NameTable α) {name other : String} (a : α) (h : name ≠ other) :
    (t.put name a).find? other = t.find? other := by
  simp [find?_put, h]

/-- Whether a name is in a table after a put. -/
theorem contains_put (t : NameTable α) (x y : String) (a : α) :
    (t.put x a).contains y = (decide (x = y) || t.contains y) := by
  unfold contains
  rw [find?_put]
  by_cases h : x = y <;> simp [h]

@[simp] theorem contains_empty (x : String) : (empty : NameTable α).contains x = false := rfl

theorem contains_foldl (x : String) : ∀ (entries : List (String × α)) (t : NameTable α),
    (entries.foldl (fun t e => t.put e.1 e.2) t).contains x = true ↔
      x ∈ entries.map Prod.fst ∨ t.contains x = true
  | [], t => by simp
  | (y, a) :: entries, t => by
    rw [List.foldl_cons, contains_foldl x entries, contains_put, Bool.or_eq_true, decide_eq_true_eq,
      List.map_cons, List.mem_cons]
    constructor
    · rintro (h | h | h)
      · exact .inl (.inr h)
      · exact .inl (.inl h.symm)
      · exact .inr h
    · rintro ((h | h) | h)
      · exact .inr (.inl h.symm)
      · exact .inl h
      · exact .inr (.inr h)

/-- The names of a table are those of its entries. -/
theorem contains_ofList (entries : List (String × α)) (x : String) :
    (ofList entries).contains x = true ↔ x ∈ entries.map Prod.fst := by
  rw [ofList, contains_foldl]
  simp

theorem mem_of_find?_foldl {x : String} {a : α} : ∀ (entries : List (String × α)) (t : NameTable α),
    (entries.foldl (fun t e => t.put e.1 e.2) t).find? x = some a →
      (x, a) ∈ entries ∨ t.find? x = some a
  | [], _, h => .inr h
  | (y, b) :: entries, t, h => by
    rcases mem_of_find?_foldl entries (t.put y b) h with hmem | hfind
    · exact .inl (List.mem_cons_of_mem _ hmem)
    · rw [find?_put] at hfind
      by_cases hyx : y = x
      · rw [if_pos hyx, Option.some.injEq] at hfind
        rw [hyx, hfind]
        exact .inl List.mem_cons_self
      · rw [if_neg hyx] at hfind
        exact .inr hfind

/-- The values of a table are those of its entries. -/
theorem mem_of_find?_ofList {entries : List (String × α)} {x : String} {a : α}
    (h : (ofList entries).find? x = some a) : (x, a) ∈ entries :=
  (mem_of_find?_foldl entries empty h).resolve_right (by simp)

end NameTable
end ClassScript
