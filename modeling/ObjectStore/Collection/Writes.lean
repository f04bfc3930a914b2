import ObjectStore.Collection.Basic

/-
  Writing lists and sets.

  Only a live collection is written, and only inside a write of its session. The
  owner has to be there. What each operation does to the elements is said in
  `Container`; here it is put behind these checks.
-/

namespace ObjectStore

namespace Collection

/-- An operation on the elements of a live collection. -/
def mutate {α : Type} (c : Collection) (w : World) (t : Thread)
    (f : Container → Batch → Except Error α × Batch) : Except Error α × World :=
  match c with
  | .unattached _ _ => (.error (.invalidOperation .notAttached), w)
  | .bound (.frozen _) _ => (.error (.invalidOperation .frozenCollection), w)
  | .bound (.live s) container => w.mutate t s (container.guarded (f container))

/-- A value appended to a list or inserted into a set; whether it was not there. -/
def append (c : Collection) (w : World) (t : Thread) (v : Value) : Except Error Bool × World :=
  c.mutate w t fun container => container.append v

/-- A value inserted at a place of a list. -/
def insert (c : Collection) (w : World) (t : Thread) (i : Nat) (v : Value) :
    Except Error Unit × World :=
  c.mutate w t fun container => container.insert i v

/-- The element at a place removed; its value is returned. -/
def remove (c : Collection) (w : World) (t : Thread) (i : Nat) : Except Error Value × World :=
  c.mutate w t fun container => container.remove i

/-- The first element equal to a value removed; whether there was one. -/
def removeValue (c : Collection) (w : World) (t : Thread) (v : Value) :
    Except Error Bool × World :=
  c.mutate w t fun container => container.removeValue v

/-- The value of the element at a place of a list replaced; the one before is
returned. -/
def replace (c : Collection) (w : World) (t : Thread) (i : Nat) (v : Value) :
    Except Error Value × World :=
  c.mutate w t fun container => container.replace i v

def clear (c : Collection) (w : World) (t : Thread) : Except Error Unit × World :=
  c.mutate w t Container.clear

/-- Every object that an element links to deleted; how many there were. -/
def deleteObjects (c : Collection) (w : World) (t : Thread) : Except Error Nat × World :=
  c.mutate w t Container.deleteObjects

end Collection

namespace World

/-- The elements of a container property replaced by the values of an unattached
collection. -/
def assign (w : World) (t : Thread) (s : SessionId) (key : ObjectKey) (property : String)
    (values : Collection) : Except Error Collection × World :=
  let target : Except Error (List Value × Collection) := do
    let vs ← values.plainValues
    return (vs, ← w.collection t s key property)
  match target with
  | .error e => (.error e, w)
  | .ok (vs, c) =>
    let (done, w) := c.mutate w t fun container => container.assign vs
    (done.map fun _ => c, w)

end World

end ObjectStore
