import ObjectStore.Container.Edit
import ObjectStore.Session.Objects
import ObjectStore.View.Binding

/-
  Handles on lists and sets.

  A collection is either plain values that belong to no object yet, or a list or
  set property of one object, bound to a session or to one snapshot. What it is at
  a moment is its state:

    unattached    plain values; they can be listed and assigned
    live          the property as the session sees it
    frozen        the property in one committed snapshot
    invalidated   a live one whose owner is gone or whose session is closed

    1. `Collection.ofValues` makes an unattached collection.
    2. `World.collection`, `World.list` and `World.set` make live ones.
    3. `Collection.freeze` pins one to what the session has last committed.
-/

namespace ObjectStore

/-- A list or set, attached to an object or not. -/
inductive Collection where
  | unattached (kind : PropertyKind) (values : List Value)
  | bound (binding : Binding) (container : Container)
  deriving DecidableEq, Inhabited

/-- What a collection is at a moment. -/
inductive Lifecycle where
  | unattached | live | frozen | invalidated
  deriving DecidableEq, Repr, Inhabited

def Lifecycle.name : Lifecycle → String
  | .unattached => "Unattached"
  | .live => "Live"
  | .frozen => "Frozen"
  | .invalidated => "Invalidated"

namespace Collection

/-- Values in the order in which an unattached collection keeps them: a set takes
each at its place, unless an equal one is there. -/
def gather (element kind : PropertyKind) (shape : Shape) (kept : List Value) :
    List Value → Except Error (List Value)
  | [] => .ok kept
  | v :: vs =>
    match element.check v with
    | .error e => .error e
    | .ok () =>
      let stored := kind.normalize v
      match shape with
      | .list => gather element kind shape (kept ++ [stored]) vs
      | .set =>
        match search (fun x => x.canonicalCompare stored) kept with
        | .found _ => gather element kind shape kept vs
        | .free i => gather element kind shape (kept.insertIdx i stored) vs

/-- An unattached collection of values. -/
def ofValues (kind : PropertyKind) (vs : List Value) : Except Error Collection :=
  match kind.container with
  | none => .error (.typeMismatch "list or set kind" kind.text)
  | some shape => (gather kind.element kind shape [] vs).map (.unattached kind)

/-- The kind of the property, or the one for which the values are meant. -/
def kind : Collection → PropertyKind
  | .unattached kind _ => kind
  | .bound _ container => container.kind

/-- The elements themselves, for conditions on them. -/
def element (c : Collection) : Reference := Reference.element c.kind

/-- What the collection is in a world. -/
def state (c : Collection) (w : World) : Lifecycle :=
  match c with
  | .unattached _ _ => .unattached
  | .bound (.frozen _) _ => .frozen
  | .bound (.live s) container =>
    match w.peek s with
    | some view => if view.contains container.key.owner then .live else .invalidated
    | none => .invalidated

/-- The object to which the property belongs. -/
def owner? : Collection → Option ObjectKey
  | .unattached _ _ => none
  | .bound _ container => some container.key.owner

def property? : Collection → Option String
  | .unattached _ _ => none
  | .bound _ container => some container.key.property

/-- The binding and the container; an unattached collection has none. -/
def attached : Collection → Except Error (Binding × Container)
  | .unattached _ _ => .error (.invalidOperation .notAttached)
  | .bound binding container => .ok (binding, container)

def plainValues : Collection → Except Error (List Value)
  | .unattached _ vs => .ok vs
  | .bound _ _ => .error (.invalidOperation .alreadyAttached)

/-- The collection in what the session has last committed. The owner has to be
there; a frozen collection stays as it is. -/
def freeze (c : Collection) (w : World) (t : Thread) : Except Error Collection := do
  let (binding, container) ← c.attached
  if binding.isFrozen then return c
  let frozen ← binding.freeze w t
  let _ ← frozen.read w t fun s _ => Container.elementsIn container.key s
  return .bound frozen container

def generation (c : Collection) (w : World) (t : Thread) : Except Error Generation := do
  let (binding, _) ← c.attached
  binding.generation w t

end Collection

namespace World

/-- A list or set property of an object. -/
def collection (w : World) (t : Thread) (s : SessionId) (key : ObjectKey) (property : String) :
    Except Error Collection := do
  let kind ← w.read t s fun view _ =>
    match view.entity? key with
    | none => .error (.notFound key)
    | some e => ((w.schemaOf s).property e.className property).map (·.kind)
  if !kind.isContainer then
    throw (.typeMismatch "list or set property" s!"{property}: {kind.text}")
  return .bound (.live s) ⟨⟨key, property⟩, kind⟩

def collectionOf (w : World) (t : Thread) (s : SessionId) (key : ObjectKey) (property : String)
    (shape : Shape) : Except Error Collection := do
  let c ← w.collection t s key property
  if c.kind.container ≠ some shape then
    throw (.typeMismatch s!"{shape.name} property" s!"{property}: {c.kind.text}")
  return c

/-- A list property of an object. -/
def list (w : World) (t : Thread) (s : SessionId) (key : ObjectKey) (property : String) :
    Except Error Collection :=
  w.collectionOf t s key property .list

/-- A set property of an object. -/
def set (w : World) (t : Thread) (s : SessionId) (key : ObjectKey) (property : String) :
    Except Error Collection :=
  w.collectionOf t s key property .set

end World

end ObjectStore
