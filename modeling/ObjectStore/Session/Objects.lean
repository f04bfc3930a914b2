import ObjectStore.Filter.Reference
import ObjectStore.Object.Edit
import ObjectStore.Session.World

/-
  Objects through a session.

  Objects are created, written and deleted inside a write, and read at any time.
  The class and the values given for a new object are checked first, whatever the
  state of the session; all else is checked behind the session's own checks.
-/

namespace ObjectStore

namespace World

def create (w : World) (t : Thread) (s : SessionId) (className : String)
    (fields : List (String × Value)) : Except Error ObjectKey × World :=
  let given : Except Error (ClassSchema × List (Property × Value)) := do
    let c ← (w.schemaOf s).find className
    return (c, ← c.checkFields fields)
  match given with
  | .error e => (.error e, w)
  | .ok (c, given) => w.mutate t s (Batch.createObject c given)

/-- An object deleted with every link to it; whether it was there. -/
def delete (w : World) (t : Thread) (s : SessionId) (key : ObjectKey) :
    Except Error Bool × World :=
  w.mutate t s (Batch.deleteObject key)

/-- A value written to a property of an object. -/
def setValue (w : World) (t : Thread) (s : SessionId) (key : ObjectKey) (property : String)
    (v : Value) : Except Error Unit × World :=
  w.mutate t s (Batch.setValue (w.schemaOf s) key property v)

/-- The value under a property of an object. -/
def getValue (w : World) (t : Thread) (s : SessionId) (key : ObjectKey) (property : String) :
    Except Error Value :=
  w.read t s fun view _ => view.getValue (w.schemaOf s) key property

def objectExists (w : World) (t : Thread) (s : SessionId) (key : ObjectKey) :
    Except Error Bool :=
  w.read t s fun view _ => .ok (view.contains key)

/-- The reference for a path from a class. The schema needs no access to the
session's data, so this works from any thread and after closing. -/
def path (w : World) (s : SessionId) (className : String) (segments : List String) :
    Except Error Reference :=
  Reference.resolve (w.schemaOf s) className segments

end World

end ObjectStore
