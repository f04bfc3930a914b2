import ObjectStore.Value.Basic

/-
  What a store holds at one moment.

  A snapshot is the content of the store at one generation: its objects in
  ascending order of key, and how many keys and slots were ever handed out. It is
  never written after it is committed; a writer works on a copy.

    1. `Entity` is an object: class, fields by property name, and the generation
       that last wrote one of its fields.
    2. `Field` is one value, or the elements of a list or set. An element has a
       slot and the generation that last wrote it.
    3. `Snapshot.entity?`, `Snapshot.entitiesOf` and `Snapshot.elements?` read.
-/

namespace ObjectStore

/-- One element of a stored list or set. -/
structure Element where
  slot : SlotId
  value : Value
  revision : Generation
  deriving DecidableEq, Inhabited

/-- The content of one property. A list keeps its own order, a set the canonical
order of values, without repetitions. -/
inductive Field where
  | value (v : Value)
  | list (elements : List Element)
  | set (elements : List Element)
  deriving DecidableEq, Inhabited

/-- The elements of a list or set. -/
def Field.elements? : Field → Option (List Element)
  | .value _ => none
  | .list es => some es
  | .set es => some es

abbrev Fields := List (String × Field)

def Fields.get? (fs : Fields) (name : String) : Option Field := fs.lookup name

/-- The fields with one written: at its place, or behind the others. -/
def Fields.put (name : String) (f : Field) : Fields → Fields
  | [] => [(name, f)]
  | (n, g) :: rest => if n = name then (n, f) :: rest else (n, g) :: Fields.put name f rest

def Fields.drop (name : String) (fs : Fields) : Fields := fs.filter fun p => p.1 != name

/-- A stored object. -/
structure Entity where
  key : ObjectKey
  className : String
  fields : Fields
  revision : Generation
  deriving DecidableEq, Inhabited

namespace Entity

def field? (e : Entity) (property : String) : Option Field := e.fields.get? property

def value? (e : Entity) (property : String) : Option Value :=
  match e.field? property with
  | some (.value v) => some v
  | _ => none

/-- The elements of a property that is a list or set. -/
def elements? (e : Entity) (property : String) : Option (List Element) :=
  (e.field? property).bind Field.elements?

def put (e : Entity) (property : String) (f : Field) : Entity :=
  { e with fields := e.fields.put property f }

end Entity

/-- The content of the store at one generation. -/
structure Snapshot where
  generation : Generation
  entities : List Entity
  nextKey : Nat
  nextSlot : Nat
  deriving DecidableEq, Inhabited

namespace Snapshot

def empty : Snapshot := ⟨0, [], 0, 0⟩

/-- The object of a key. -/
def entity? (s : Snapshot) (key : ObjectKey) : Option Entity :=
  s.entities.find? (·.key == key)

/-- Whether the object of a key exists. -/
def contains (s : Snapshot) (key : ObjectKey) : Bool := (s.entity? key).isSome

/-- The objects of a class in ascending order of key. -/
def entitiesOf (s : Snapshot) (className : String) : List Entity :=
  s.entities.filter (·.className == className)

/-- The elements of a container, unless its owner or the property is missing. -/
def elements? (s : Snapshot) (c : ContainerKey) : Option (List Element) :=
  (s.entity? c.owner).bind (·.elements? c.property)

def size (s : Snapshot) : Nat := s.entities.length

end Snapshot

end ObjectStore
