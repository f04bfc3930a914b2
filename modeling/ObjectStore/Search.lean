/-
  Binary search.

  The window `[base, base + size)` is halved until one place is left: the lower
  half is kept if the middle element lies beyond the key, else the upper half,
  the middle element included. The last place decides: the element there is
  equal, or the key belongs before or behind it.

  Nothing is assumed of the order of the elements: on a list in ascending order
  the answer is the place of an equal element or the place where one belongs, on
  any other list it is what the probes give.
-/

namespace ObjectStore

/-- Where a key is, or where it belongs. -/
inductive Place where
  | found (index : Nat)
  | free (index : Nat)
  deriving DecidableEq, Repr, Inhabited

/-- The last place of a window; `probe` compares the element at a place with the
key. -/
def narrow (probe : Nat → Ordering) (base size : Nat) : Nat :=
  if size ≤ 1 then base
  else
    let half := size / 2
    let middle := base + half
    narrow probe (if probe middle = .gt then base else middle) (size - half)
termination_by size
decreasing_by omega

/-- The place of a key; `compareKey` compares an element with it. -/
def search {α : Type} (compareKey : α → Ordering) (xs : List α) : Place :=
  let probe (i : Nat) : Ordering :=
    match xs[i]? with
    | some x => compareKey x
    | none => .gt
  if xs.isEmpty then .free 0
  else
    let last := narrow probe 0 xs.length
    match probe last with
    | .eq => .found last
    | .lt => .free (last + 1)
    | .gt => .free last

end ObjectStore
