import ObjectStore.Collection.Basic
import ObjectStore.Session.Transaction

/-
  Handing a collection to another thread.

  A live collection stays with its session. What crosses threads is a token: the
  names of the owner and the property, the shape, and the generation at which the
  token was made. The receiving session turns it into a live collection of its
  own, moving forward first if it is behind that generation.
-/

namespace ObjectStore

/-- A live collection as plain data. -/
structure HandoverToken where
  generation : Generation
  owner : ObjectKey
  property : String
  shape : Shape
  deriving DecidableEq, Repr, Inhabited

/-- The token of a live collection, outside a write. -/
def Collection.export (c : Collection) (w : World) (t : Thread) : Except Error HandoverToken :=
  match c with
  | .unattached _ _ => .error (.invalidOperation .notAttached)
  | .bound (.frozen _) _ => .error (.invalidOperation .frozenExport)
  | .bound (.live s) container => do
    let snapshot ← w.committed t s
    let _ ← Container.elementsIn container.key snapshot
    match container.kind.container with
    | some shape =>
      return ⟨snapshot.generation, container.key.owner, container.key.property, shape⟩
    | none => throw (.typeMismatch "list or set property" container.kind.text)

namespace World

/-- The collection that a token names, in the session's view as it is. If the owner
is gone there is none; that is no error. -/
def locate (w : World) (t : Thread) (s : SessionId) (token : HandoverToken) :
    Except Error (Option Collection) :=
  match w.read t s fun view _ => .ok (view.entity? token.owner) with
  | .error e => .error e
  | .ok none => .ok none
  | .ok (some owner) => do
    let p ← (w.schemaOf s).property owner.className token.property
    if p.kind.container ≠ some token.shape then
      throw (.typeMismatch s!"{token.shape.name} property" s!"{token.property}: {p.kind.text}")
    return some (.bound (.live s) ⟨⟨token.owner, token.property⟩, p.kind⟩)

/-- The collection that a token names, after the session has moved to the
generation of the token if it was behind. -/
def resolve (w : World) (t : Thread) (s : SessionId) (token : HandoverToken) :
    Except Error (Option Collection) × World :=
  match w.generation t s with
  | .error e => (.error e, w)
  | .ok generation =>
    if generation < token.generation then
      match w.refresh t s with
      | (.error e, w) => (.error e, w)
      | (.ok _, w) => (w.locate t s token, w)
    else (w.locate t s token, w)

end World

end ObjectStore
