/-
# Deep nesting

Parsing and evaluation recurse once for each level of nesting in a program, and a
program may nest deeper than one machine stack holds. `onFreshStack` computes a
value on a stack of its own and `staged` does so once in a while: a recursion
that counts its levels down and wraps each of them in `staged` needs no more of
any one stack than `stageLength` levels take. Neither changes the value.
-/

namespace ClassScript

/-- The value of `compute`, computed on a stack of its own. -/
def onFreshStack {α : Type} (compute : Unit → α) : α := (Task.spawn compute .dedicated).get

theorem onFreshStack_eq {α : Type} (compute : Unit → α) : onFreshStack compute = compute () := rfl

/-- The number of levels between two changes of the stack. -/
def stageLength : Nat := 4096

/-- The value of `compute`, computed on a stack of its own at every level that `stageLength`
divides. -/
@[inline] def staged {α : Type} (level : Nat) (compute : Unit → α) : α :=
  if level % stageLength = 0 then onFreshStack compute else compute ()

@[simp] theorem staged_eq {α : Type} (level : Nat) (compute : Unit → α) :
    staged level compute = compute () := by
  simp [staged, onFreshStack_eq]

end ClassScript
