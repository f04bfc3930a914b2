import ObjectStore.View.Recipe

/-
  What changed between two evaluations of one view.

  An evaluation is remembered as its trace: the name and the revision of each
  row, in order. Two traces are compared by name. A row in both is modified if
  its revision moved; that rows changed places is not reported.

    1. `ChangeSet.between` compares two traces.
    2. `ChangeSet.isEmpty` holds if nothing was deleted, inserted or modified.
-/

namespace ObjectStore

/-- Names and revisions of the rows of a view, in order. -/
abbrev Trace := List (ElementId × Generation)

def Trace.ofRows (rows : List Row) : Trace := rows.map fun r => (r.id, r.revision)

def Trace.ids (t : Trace) : List ElementId := t.map (·.1)

/-- The revision under which a name stands in a trace, the last one if it stands
there more than once. -/
def Trace.revision? (t : Trace) (id : ElementId) : Option Generation := t.reverse.lookup id

/-- The differences between two evaluations. Deletions are places in the older
one, insertions and modifications places in the newer one; the same rows are also
given by name. -/
structure ChangeSet where
  generation : Generation
  deletions : List Nat
  insertions : List Nat
  modifications : List Nat
  deleted : List ElementId
  inserted : List ElementId
  modified : List ElementId
  deriving DecidableEq, Repr, Inhabited

namespace ChangeSet

/-- Whether nothing changed. -/
def isEmpty (c : ChangeSet) : Bool :=
  c.deletions.isEmpty && c.insertions.isEmpty && c.modifications.isEmpty

/-- The rows of a trace that satisfy a condition, with their places, counted from
`start`. -/
def pick (p : ElementId → Generation → Bool) : (start : Nat) → Trace → List (Nat × ElementId)
  | _, [] => []
  | i, (id, revision) :: rest =>
    if p id revision then (i, id) :: pick p (i + 1) rest else pick p (i + 1) rest

/-- The differences between an older and a newer trace. -/
def between (old new : Trace) (generation : Generation) : ChangeSet :=
  let gone := pick (fun id _ => !new.ids.contains id) 0 old
  let come := pick (fun id _ => (old.revision? id).isNone) 0 new
  let moved :=
    pick
      (fun id revision =>
        match old.revision? id with
        | some previous => previous != revision
        | none => false)
      0 new
  { generation
    deletions := gone.map (·.1), deleted := gone.map (·.2)
    insertions := come.map (·.1), inserted := come.map (·.2)
    modifications := moved.map (·.1), modified := moved.map (·.2) }

end ChangeSet

/-- What an observer is told: the view as it was at registration, or a difference
to the evaluation before. -/
inductive Change where
  | initial (count : Nat) (generation : Generation)
  | update (changes : ChangeSet)
  deriving DecidableEq, Repr, Inhabited

end ObjectStore
