/-
  Names for what the store holds.

  Objects, the elements of a list or set, and committed states are told apart
  by numbers that the store hands out itself. A number is never given to
  anything else, so two of them can be compared instead of what they name.

    1. `Generation` numbers the committed states; the empty one is 0.
    2. `ObjectKey` names an object for as long as it exists.
    3. `SlotId` names one element of a list or set, whatever its position.
    4. `ContainerKey` names a list or set: its owner and the property.
    5. `ElementId` names a row of a view: an object or an element.
-/

namespace ObjectStore

/-- The number of a committed state, counted from the empty store. -/
abbrev Generation := Nat

def Generation.text (g : Generation) : String := s!"g{g}"

/-- The name of an object. -/
structure ObjectKey where
  val : Nat
  deriving DecidableEq, Repr, Inhabited

/-- A key as messages and printed values write it. -/
def ObjectKey.text (k : ObjectKey) : String := s!"#{k.val}"

/-- The name of one element of a list or set. It survives reordering and
replacement of the value. -/
structure SlotId where
  val : Nat
  deriving DecidableEq, Repr, Inhabited

/-- The name of a list or set: a property of one object. -/
structure ContainerKey where
  owner : ObjectKey
  property : String
  deriving DecidableEq, Repr, Inhabited

/-- A container as messages write it: owner, point, property. -/
def ContainerKey.text (c : ContainerKey) : String := s!"{c.owner.text}.{c.property}"

/-- The name of a row: the object itself, or the slot of an element. -/
inductive ElementId where
  | object (key : ObjectKey)
  | slot (slot : SlotId)
  deriving DecidableEq, Repr, Inhabited

/-- The name of a session, counted in the order in which sessions are opened. -/
structure SessionId where
  index : Nat
  deriving DecidableEq, Repr, Inhabited

/-- The number under which messages speak of a session; the first is 1. -/
def SessionId.number (s : SessionId) : Nat := s.index + 1

/-- A thread of execution, as far as sessions care: whether two are the same. -/
abbrev Thread := Nat

end ObjectStore
