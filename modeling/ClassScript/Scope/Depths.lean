/-
# Depths of names

What the analysis of scopes finds out: for each expression that refers to a local
name, by its identity, how many scopes lie between the use and the declaration. A
reference without an entry is to a global name.

Key lemmas: `find?_record` and `find?_merge`, which say what recording one depth and
merging two tables do to every identity.
-/
import Std.Data.TreeMap

namespace ClassScript

/-- The depths of references to local names, by identity. -/
structure Depths where
  table : Std.TreeMap Nat Nat := {}

namespace Depths

def empty : Depths := {}

def find? (d : Depths) (id : Nat) : Option Nat := d.table[id]?

/-- The table with one more entry. -/
def record (d : Depths) (id depth : Nat) : Depths := ⟨d.table.insert id depth⟩

/-- The entries in the order of identities. -/
def toList (d : Depths) : List (Nat × Nat) := d.table.toList

/-- Both tables in one. The entries of the second win. -/
def merge (d e : Depths) : Depths := e.toList.foldl (fun d p => d.record p.1 p.2) d

/-- **Recording a depth gives it to its own identity and leaves all others alone.** -/
theorem find?_record (d : Depths) (id other depth : Nat) :
    (d.record id depth).find? other = if id = other then some depth else d.find? other := by
  simp [record, find?, Std.TreeMap.getElem?_insert]

/-- Recording entries of `e` one by one. -/
theorem find?_foldl_record {e : Depths} (id : Nat) : ∀ (entries : List (Nat × Nat)) (d : Depths),
    (∀ p ∈ entries, e.find? p.1 = some p.2) →
    (entries.foldl (fun d p => d.record p.1 p.2) d).find? id =
      if id ∈ entries.map Prod.fst then e.find? id else d.find? id
  | [], _, _ => by simp
  | p :: entries, d, h => by
    rw [List.foldl_cons, find?_foldl_record id entries _ fun q hq => h q (.tail _ hq), find?_record]
    by_cases hid : p.1 = id
    · have hp : e.find? id = some p.2 := hid ▸ h p (.head _)
      by_cases hmem : id ∈ entries.map Prod.fst <;> simp [hid, hmem, hp]
    · by_cases hmem : id ∈ entries.map Prod.fst <;> simp [hid, hmem, Ne.symm hid]

/-- **Of two merged tables the second one wins.** -/
theorem find?_merge (d e : Depths) (id : Nat) :
    (d.merge e).find? id = (e.find? id).or (d.find? id) := by
  have hentry : ∀ p, p ∈ e.toList ↔ e.find? p.1 = some p.2 := fun p =>
    Std.TreeMap.mem_toList_iff_getElem?_eq_some
  rw [merge, find?_foldl_record id e.toList d fun p hp => (hentry p).mp hp]
  cases hid : e.find? id with
  | none =>
    have hout : id ∉ e.toList.map Prod.fst := by
      intro hmem
      obtain ⟨p, hp, rfl⟩ := List.mem_map.mp hmem
      rw [(hentry p).mp hp] at hid
      cases hid
    rw [if_neg hout]
    rfl
  | some depth =>
    have hin : id ∈ e.toList.map Prod.fst :=
      List.mem_map.mpr ⟨(id, depth), (hentry (id, depth)).mpr hid, rfl⟩
    rw [if_pos hin]
    rfl

end Depths
end ClassScript
