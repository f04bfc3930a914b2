import ObjectStore.Error
import ObjectStore.Value.Basic

/-
  What a property may hold.

  A property holds one value, a list or a set. Its kind says of which family the
  values are, whether null is among them, and to which class links lead. The kind
  of an element is the kind of the property without the container.

    1. `PropertyKind.accepts`: which values may be stored as an element.
    2. `PropertyKind.check`: the same, as an error that names both sides.
    3. `PropertyKind.normalize`: the form in which an accepted value is stored.
-/

namespace ObjectStore

/-- The shape of a container: a list keeps order and repetitions, a set neither. -/
inductive Shape where
  | list
  | set
  deriving DecidableEq, Repr, Inhabited

/-- The name of a shape in messages. -/
def Shape.name : Shape → String
  | .list => "list"
  | .set => "set"

/-- The declared type of a property, or of the elements of a container. -/
structure PropertyKind where
  family : Family
  optional : Bool
  container : Option Shape
  target : Option String
  deriving DecidableEq, Repr, Inhabited

namespace PropertyKind

/-- One required value. A property that accepts every family accepts null too. -/
def scalar (f : Family) : PropertyKind := ⟨f, f == .any, none, none⟩

def maybe (f : Family) : PropertyKind := { scalar f with optional := true }

/-- A link to an object of a class, or null. -/
def link (className : String) : PropertyKind := ⟨.object, true, none, some className⟩

def list (f : Family) : PropertyKind := { scalar f with container := some .list }

def set (f : Family) : PropertyKind := { scalar f with container := some .set }

/-- A list of links to objects of a class. -/
def listOf (className : String) : PropertyKind := ⟨.object, false, some .list, some className⟩

/-- A set of links to objects of a class. -/
def setOf (className : String) : PropertyKind := ⟨.object, false, some .set, some className⟩

/-- The same kind with null allowed, among the elements if it is a container. -/
def nullable (k : PropertyKind) : PropertyKind := { k with optional := true }

def element (k : PropertyKind) : PropertyKind := { k with container := none }

/-- Whether the property is a list or set. -/
def isContainer (k : PropertyKind) : Bool := k.container.isSome

def isObject (k : PropertyKind) : Bool := k.family == .object

/-- Whether a value may be stored as an element: null where it is allowed, any
other value of the family, and every value under the family `any`. -/
def accepts (k : PropertyKind) (v : Value) : Bool :=
  match v.family? with
  | none => k.optional
  | some f => k.family == .any || f == k.family

/-- The name of a kind: the family or the target class, a question mark where
null is allowed, inside the name of the container. -/
def text (k : PropertyKind) : String :=
  let base :=
    match k.target, k.family with
    | some className, .object => className
    | _, f => f.name
  let mark := if k.optional && k.family != .any then "?" else ""
  match k.container with
  | some shape => s!"{shape.name}<{base}{mark}>"
  | none => s!"{base}{mark}"

/-- A value that may not be stored as an element is a mismatch. -/
def check (k : PropertyKind) (v : Value) : Except Error Unit :=
  if k.accepts v then .ok () else .error (.typeMismatch k.element.text v.typeName)

/-- The stored form of an accepted value: under the family `any` its concrete
kind is kept next to it. -/
def normalize (k : PropertyKind) (v : Value) : Value :=
  if k.family = .any then v.any else v

end PropertyKind

end ObjectStore
