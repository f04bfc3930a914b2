import ObjectStore.Schema.Classes
import ObjectStore.Store.Batch
import ObjectStore.Store.Link

/-
  Objects created, written and deleted in a batch.

  Every operand is checked before anything is written. The properties of a new
  object that are not given hold null where it is allowed and the default of the
  family elsewhere; lists and sets start empty.

    1. `ClassSchema.checkFields` checks the values given for a new object.
    2. `Batch.createObject`, `Batch.setValue` and `Batch.deleteObject` write.
-/

namespace ObjectStore

def Property.requireScalar (p : Property) : Except Error Unit :=
  if p.kind.isContainer then
    .error (.typeMismatch "scalar property" s!"{p.name}: {p.kind.text}")
  else .ok ()

/-- A value given for a property, in its stored form. -/
def ClassSchema.checkField (c : ClassSchema) (name : String) (v : Value) :
    Except Error (Property × Value) := do
  let p ← c.property name
  p.requireScalar
  p.kind.check v
  return (p, p.kind.normalize v)

/-- The values given for a new object; the first fault in order is the answer. -/
def ClassSchema.checkFields (c : ClassSchema) :
    List (String × Value) → Except Error (List (Property × Value))
  | [] => .ok []
  | (name, v) :: rest => do
    let field ← c.checkField name v
    let fields ← c.checkFields rest
    return field :: fields

/-- The links among the given values lead to objects of their target classes. -/
def Snapshot.checkLinks (s : Snapshot) : List (Property × Value) → Except Error Unit
  | [] => .ok ()
  | (p, v) :: rest => do
    s.checkLink p.kind v
    s.checkLinks rest

/-- What a new object holds under a property; of several values given for it the
last one counts. -/
def initialField (given : List (Property × Value)) (p : Property) : Field :=
  match p.kind.container with
  | some .list => .list []
  | some .set => .set []
  | none =>
    match given.reverse.find? (·.1.name == p.name) with
    | some (_, v) => .value v
    | none => .value (if p.kind.optional then .null else p.kind.family.defaultValue)

namespace Batch

/-- A new object of a class with the given values. -/
def createObject (c : ClassSchema) (given : List (Property × Value)) (b : Batch) :
    Except Error ObjectKey × Batch :=
  match b.view.checkLinks given with
  | .error e => (.error e, b)
  | .ok () =>
    let (key, b) := b.insertEntity c.name
    let fields := c.properties.map fun p => (p.name, initialField given p)
    let (written, b) := b.edit key fun e => { e with fields }
    (written.map fun _ => key, b)

/-- A value to be written to a property of an object, in its stored form. -/
def checkWrite (s : Schema) (key : ObjectKey) (property : String) (v : Value)
    (view : Snapshot) : Except Error Value :=
  match view.entity? key with
  | none => .error (.notFound key)
  | some e => do
    let p ← s.property e.className property
    p.requireScalar
    p.kind.check v
    view.checkLink p.kind v
    return p.kind.normalize v

/-- A value written to a property of an object. -/
def setValue (s : Schema) (key : ObjectKey) (property : String) (v : Value) (b : Batch) :
    Except Error Unit × Batch :=
  match checkWrite s key property v b.view with
  | .error e => (.error e, b)
  | .ok stored => b.edit key fun e => e.put property (.value stored)

/-- An object deleted with every link to it; whether it was there. -/
def deleteObject (key : ObjectKey) (b : Batch) : Except Error Bool × Batch :=
  let (links, b) := b.removeEntity key
  (.ok links.isSome, b)

end Batch

/-- The value under a property of an object; a property never written reads as
null. -/
def Snapshot.getValue (view : Snapshot) (s : Schema) (key : ObjectKey) (property : String) :
    Except Error Value :=
  match view.entity? key with
  | none => .error (.notFound key)
  | some e => do
    let p ← s.property e.className property
    p.requireScalar
    return (e.value? property).getD .null

end ObjectStore
