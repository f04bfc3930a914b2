import ObjectStore.Filter.Meaning
import ObjectStore.Filter.Predicate
import ObjectStore.Search
import ObjectStore.Sorting

/-
  Views as recipes.

  A view is a recipe for rows: where they come from, which of them to keep, by
  what to sort them, and by what to keep only the first of equal ones. The recipe
  says nothing of a snapshot; applied to one it gives the rows, in this order of
  steps.

    1. `Recipe.rows` applies a recipe. It fails only if the container it starts
       from has lost its owner.
    2. `Recipe.narrowed`, `sortedBy`, `distinctBy` derive one recipe from another.
-/

namespace ObjectStore

inductive Source where
  /-- The objects of a class in ascending order of key. -/
  | objects (className : String)
  /-- The elements of a list or set in stored order. -/
  | container (key : ContainerKey)
  deriving DecidableEq, Repr, Inhabited

/-- By what rows are sorted. -/
structure SortKey where
  path : Path
  ascending : Bool
  deriving DecidableEq, Repr, Inhabited

structure Recipe where
  source : Source
  predicate : Option Predicate
  sort : Option SortKey
  distinct : Option Path
  deriving Inhabited

/-- A row: its name, its value, and the generation that last wrote the element or
the object it links to. -/
structure Row where
  id : ElementId
  value : Value
  revision : Generation
  deriving DecidableEq, Inhabited

namespace Recipe

def ofSource (s : Source) : Recipe := ⟨s, none, none, none⟩

def objectRow (e : Entity) : Row := ⟨.object e.key, .object e.key, e.revision⟩

/-- An element as a row. It is as new as the object that it links to. -/
def elementRow (s : Snapshot) (e : Element) : Row :=
  let revision :=
    match e.value.asObject.bind s.entity? with
    | some linked => max linked.revision e.revision
    | none => e.revision
  ⟨.slot e.slot, e.value, revision⟩

def sourceRows (s : Snapshot) : Source → Except Error (List Row)
  | .objects className => .ok ((s.entitiesOf className).map objectRow)
  | .container key =>
    match s.entity? key.owner with
    | none => .error (.staleReference (.owner key))
    | some owner => .ok (((owner.elements? key.property).getD []).map (elementRow s))

/-- The value that a path reaches from a row. -/
def keyOf (s : Snapshot) (p : Path) (r : Row) : Value := (s.reach r.value p.segments).value

def keep (s : Snapshot) : Option Predicate → List Row → List Row
  | none, rows => rows
  | some p, rows => rows.filter fun r => p.expr.holds s r.value

/-- The rows in the order of their keys, rows with equal keys in the order they
had, in either direction. -/
def order (s : Snapshot) : Option SortKey → List Row → List Row
  | none, rows => rows
  | some k, rows =>
    let before (a b : Row) : Bool :=
      let o := (keyOf s k.path a).canonicalCompare (keyOf s k.path b)
      if k.ascending then o == .lt else o == .gt
    stableSort before rows

/-- The rows whose key was not seen before; `seen` is in canonical order. -/
def firsts (s : Snapshot) (p : Path) : (seen : List Value) → List Row → List Row
  | _, [] => []
  | seen, r :: rows =>
    let key := keyOf s p r
    match search (fun v => v.canonicalCompare key) seen with
    | .found _ => firsts s p seen rows
    | .free i => r :: firsts s p (seen.insertIdx i key) rows

def dedup (s : Snapshot) : Option Path → List Row → List Row
  | none, rows => rows
  | some p, rows => firsts s p [] rows

/-- The rows of a recipe: the source, filtered, sorted, without repeated keys. -/
def rows (r : Recipe) (s : Snapshot) : Except Error (List Row) :=
  match sourceRows s r.source with
  | .error e => .error e
  | .ok all => .ok (dedup s r.distinct (order s r.sort (keep s r.predicate all)))

/-- The rows, or none if the owner of the container is gone. -/
def rowsOrNone (r : Recipe) (s : Snapshot) : List Row :=
  match r.rows s with
  | .ok rows => rows
  | .error _ => []

/-- The rows that satisfy one more condition. -/
def narrowed (r : Recipe) (e : Expr) : Recipe :=
  let joined :=
    match r.predicate with
    | some p => p.expr.and e
    | none => e
  { r with predicate := some joined.compile }

/-- The rows sorted by a property. -/
def sortedBy (r : Recipe) (key : Reference) (ascending : Bool) : Recipe :=
  { r with sort := some ⟨key.path, ascending⟩ }

/-- The first row of each value of a property. -/
def distinctBy (r : Recipe) (key : Reference) : Recipe := { r with distinct := some key.path }

end Recipe

end ObjectStore
