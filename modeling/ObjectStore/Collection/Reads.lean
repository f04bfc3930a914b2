import ObjectStore.Collection.Basic
import ObjectStore.View.Results

/-
  Reading lists and sets.

  The values of a collection are read in stored order, whatever its state. Places
  and slots of elements, aggregates and derived views belong to attached
  collections only.
-/

namespace ObjectStore

namespace Collection

def elements (c : Collection) (w : World) (t : Thread) : Except Error (List Element) := do
  let (binding, container) ← c.attached
  binding.read w t fun s _ => Container.elementsIn container.key s

def values (c : Collection) (w : World) (t : Thread) : Except Error (List Value) :=
  match c with
  | .unattached _ vs => .ok vs
  | .bound _ _ => (c.elements w t).map fun es => es.map (·.value)

def size (c : Collection) (w : World) (t : Thread) : Except Error Nat :=
  (c.values w t).map List.length

def isEmpty (c : Collection) (w : World) (t : Thread) : Except Error Bool :=
  (c.size w t).map fun n => n == 0

def get (c : Collection) (w : World) (t : Thread) (i : Nat) : Except Error Value := do
  let vs ← c.values w t
  match vs[i]? with
  | some v => return v
  | none => throw (.indexOutOfBounds i vs.length)

def contains (c : Collection) (w : World) (t : Thread) (v : Value) : Except Error Bool :=
  (c.values w t).map fun vs => vs.any fun x => x.exactEq v

/-- The place of the first element that equals a value. -/
def indexOf (c : Collection) (w : World) (t : Thread) (v : Value) : Except Error (Option Nat) :=
  (c.values w t).map fun vs => vs.findIdx? fun x => x.exactEq v

/-- The slot of the element at a place. -/
def slotAt (c : Collection) (w : World) (t : Thread) (i : Nat) : Except Error SlotId := do
  let es ← c.elements w t
  match es[i]? with
  | some e => return e.slot
  | none => throw (.indexOutOfBounds i es.length)

/-- The value of the element in a slot. -/
def getBySlot (c : Collection) (w : World) (t : Thread) (slot : SlotId) :
    Except Error (Option Value) :=
  (c.elements w t).map fun es => (es.find? (·.slot == slot)).map (·.value)

/-- Whether all elements lie in a range; of an empty collection this is false. The
condition is checked against the kind before anything is read. -/
def containsWithin (c : Collection) (w : World) (t : Thread) (b : Bounds) :
    Except Error Bool := do
  let (binding, container) ← c.attached
  let owned := Reference.onOwner container.key.property container.kind
  let e ← owned.containsAllWithin b
  binding.read w t fun s _ => do
    let _ ← Container.elementsIn container.key s
    return e.holds s (.object container.key.owner)

/-! ## Aggregates -/

/-- An aggregate of the values. The kind is checked before anything is read. -/
def fold {α : Type} (c : Collection) (w : World) (t : Thread) (a : Aggregate)
    (f : List Value → Family → Except Error α) : Except Error α := do
  let (_, container) ← c.attached
  a.check container.kind.element
  let vs ← c.values w t
  f vs container.kind.family

def min (c : Collection) (w : World) (t : Thread) : Except Error (Option Value) :=
  c.fold w t .min fun vs _ => .ok (least vs)

def max (c : Collection) (w : World) (t : Thread) : Except Error (Option Value) :=
  c.fold w t .max fun vs _ => .ok (greatest vs)

def sum (c : Collection) (w : World) (t : Thread) : Except Error Value :=
  c.fold w t .sum ObjectStore.sum

def average (c : Collection) (w : World) (t : Thread) : Except Error (Option Value) :=
  c.fold w t .average ObjectStore.average

/-! ## Derived views -/

def asResults (c : Collection) : Except Error Results :=
  c.attached.map fun (binding, container) =>
    .ofRecipe binding (.ofSource (.container container.key))

def filter (c : Collection) (e : Expr) : Except Error Results :=
  c.asResults.map fun r => r.filter e

def sorted (c : Collection) (ascending : Bool) : Except Error Results :=
  c.asResults.map fun r => r.sorted c.element ascending

/-- The elements sorted by a property of the objects that they link to. -/
def sortedBy (c : Collection) (key : Reference) (ascending : Bool) : Except Error Results :=
  c.asResults.map fun r => r.sorted key ascending

def distinct (c : Collection) : Except Error Results :=
  c.asResults.map fun r => r.distinct c.element

/-- The first element of each value of a property of the objects linked to. -/
def distinctBy (c : Collection) (key : Reference) : Except Error Results :=
  c.asResults.map fun r => r.distinct key

def observe (c : Collection) (w : World) (t : Thread) :
    Except Error (SessionId × ObserverId) × World :=
  match c.asResults with
  | .error e => (.error e, w)
  | .ok r =>
    let (id, _, w) := r.observe w t
    (id, w)

end Collection

end ObjectStore
