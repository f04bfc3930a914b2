/-
  Stable sorting.

  The values are taken one after the other and each is put among those taken
  before it, which are in order already: from their end it passes the values that
  it comes before, and stays behind the first one that it does not come before. So
  values of which neither comes before the other keep the order they had.

  Nothing is assumed of the comparison: where it is a total preorder the answer is
  the sorted list, on any other it is what these comparisons give.
-/

namespace ObjectStore

/-- A value put among values that are listed from the last one down: it passes
those that it comes before. -/
def sink {α : Type} (before : α → α → Bool) (x : α) : List α → List α
  | [] => [x]
  | y :: ys => if before x y then y :: sink before x ys else x :: y :: ys

/-- The values in order, those of which neither comes before the other in the
order given. -/
def stableSort {α : Type} (before : α → α → Bool) (xs : List α) : List α :=
  (xs.foldl (fun taken x => sink before x taken) []).reverse

end ObjectStore
