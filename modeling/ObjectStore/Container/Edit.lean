import ObjectStore.Search
import ObjectStore.Store.Batch
import ObjectStore.Store.Link
import ObjectStore.Value.Order

/-
  Lists and sets edited in a batch.

  A list keeps its elements where they were put. A set keeps them in canonical
  order of values, one for each value, and finds places by binary search. Every
  new element gets a new slot; replacing the value of an element keeps its slot.

    1. `Container.prepare` is the stored form of an element: checked against the
       kind, its link checked, without a wrapper unless the kind accepts every
       family.
    2. `append`, `insert`, `remove`, `removeValue`, `replace`, `clear`, `assign`
       edit the elements; `deleteObjects` deletes what the elements link to.
-/

namespace ObjectStore

/-- A list or set property of one object, with its declared kind. -/
structure Container where
  key : ContainerKey
  kind : PropertyKind
  deriving DecidableEq, Repr, Inhabited

namespace Container

/-- The elements in a snapshot. A property never written has none. -/
def elementsIn (c : ContainerKey) (s : Snapshot) : Except Error (List Element) :=
  match s.entity? c.owner with
  | none => .error (.staleReference (.owner c))
  | some owner => .ok ((owner.elements? c.property).getD [])

/-- Where a value is in a set, or where it belongs. -/
def placeOf (es : List Element) (v : Value) : Place :=
  search (fun e => e.value.canonicalCompare v) es

/-- The stored form of an element. -/
def prepare (s : Snapshot) (k : PropertyKind) (v : Value) : Except Error Value := do
  k.element.check v
  s.checkLink k v
  return k.normalize v.unwrap

/-- A new element under a new slot. -/
def newElement (b : Batch) (v : Value) : Element × Batch :=
  let (slot, b) := b.allocateSlot
  (⟨slot, v, b.pending⟩, b)

/-- New elements for values, one after the other. -/
def newElements (b : Batch) : List Value → List Element × Batch
  | [] => ([], b)
  | v :: vs =>
    let (e, b) := newElement b v
    let (es, b) := newElements b vs
    (e :: es, b)

/-- The field with its elements edited, if it has any; one that was never written
starts empty. -/
def editField (k : PropertyKind) (f : List Element → List Element) : Option Field → Option Field
  | none => some (if k.container = some .set then .set (f []) else .list (f []))
  | some (.list es) => some (.list (f es))
  | some (.set es) => some (.set (f es))
  | some (.value _) => none

/-- The elements edited in the batch. The owner is stamped first. -/
def edit (c : Container) (f : List Element → List Element) (b : Batch) :
    Except Error Unit × Batch :=
  match b.edit c.key.owner fun e =>
    match editField c.kind f (e.field? c.key.property) with
    | some field => e.put c.key.property field
    | none => e
  with
  | (.error e, b) => (.error e, b)
  | (.ok (), b) =>
    let field := (b.view.entity? c.key.owner).bind (·.field? c.key.property)
    match field with
    | some (.value _) => (.error (.typeMismatch "list or set property" c.key.text), b)
    | _ => (.ok (), b)

/-- An operation on a container whose owner is still there. -/
def guarded {α : Type} (c : Container) (f : Batch → Except Error α × Batch) (b : Batch) :
    Except Error α × Batch :=
  if b.view.contains c.key.owner then f b else (.error (.staleReference (.owner c.key)), b)

/-- Operations that name a place are for lists only. -/
def requireList (k : PropertyKind) (operation : String) : Except Error Unit :=
  if k.container = some .list then .ok () else .error (.invalidOperation (.notOnSet operation))

/-- Where a new value goes: behind the others in a list, at its place in a set
unless it is there already. -/
def placeForNew (k : PropertyKind) (es : List Element) (v : Value) : Option Nat :=
  if k.container = some .set then
    match placeOf es v with
    | .found _ => none
    | .free i => some i
  else some es.length

/-- A value put in as a new element at a place. -/
def insertNew (c : Container) (i : Nat) (v : Value) (b : Batch) : Except Error Unit × Batch :=
  let (e, b) := newElement b v
  c.edit (fun es => es.insertIdx i e) b

/-- A value appended to a list or inserted into a set; whether it was not there. -/
def append (c : Container) (v : Value) (b : Batch) : Except Error Bool × Batch :=
  match prepare b.view c.kind v, elementsIn c.key b.view with
  | .error e, _ => (.error e, b)
  | .ok _, .error e => (.error e, b)
  | .ok stored, .ok es =>
    match placeForNew c.kind es stored with
    | none => (.ok false, b)
    | some i =>
      let (written, b) := c.insertNew i stored b
      (written.map fun _ => true, b)

/-- What an operation at a place of a list needs: the stored form of the value and
the elements. -/
def prepareAt (c : Container) (operation : String) (v : Value) (s : Snapshot) :
    Except Error (Value × List Element) := do
  requireList c.kind operation
  let stored ← prepare s c.kind v
  let es ← elementsIn c.key s
  return (stored, es)

/-- A value inserted at a place of a list. -/
def insert (c : Container) (i : Nat) (v : Value) (b : Batch) : Except Error Unit × Batch :=
  match c.prepareAt "positional insert" v b.view with
  | .error e => (.error e, b)
  | .ok (stored, es) =>
    if i > es.length then (.error (.indexOutOfBounds i es.length), b)
    else c.insertNew i stored b

/-- The element at a place removed; its value is returned. -/
def remove (c : Container) (i : Nat) (b : Batch) : Except Error Value × Batch :=
  match elementsIn c.key b.view with
  | .error e => (.error e, b)
  | .ok es =>
    match es[i]? with
    | none => (.error (.indexOutOfBounds i es.length), b)
    | some e =>
      let (written, b) := c.edit (fun es => es.eraseIdx i) b
      (written.map fun _ => e.value, b)

/-- The first element equal to a value removed; whether there was one. -/
def removeValue (c : Container) (v : Value) (b : Batch) : Except Error Bool × Batch :=
  match elementsIn c.key b.view with
  | .error e => (.error e, b)
  | .ok es =>
    match es.findIdx? (fun e => e.value.exactEq v) with
    | none => (.ok false, b)
    | some i =>
      let (written, b) := c.edit (fun es => es.eraseIdx i) b
      (written.map fun _ => true, b)

/-- The value of the element at a place of a list replaced; the one before is
returned. -/
def replace (c : Container) (i : Nat) (v : Value) (b : Batch) : Except Error Value × Batch :=
  match c.prepareAt "replace" v b.view with
  | .error e => (.error e, b)
  | .ok (stored, es) =>
    match es[i]? with
    | none => (.error (.indexOutOfBounds i es.length), b)
    | some e =>
      let renewed : Element := ⟨e.slot, stored, b.pending⟩
      let (written, b) := c.edit (fun es => es.set i renewed) b
      (written.map fun _ => e.value, b)

/-- All elements removed. -/
def clear (c : Container) (b : Batch) : Except Error Unit × Batch := c.edit (fun _ => []) b

/-! ## Bulk operations -/

/-- The stored forms of several elements; the first fault in order is the answer. -/
def prepareAll (s : Snapshot) (k : PropertyKind) : List Value → Except Error (List Value)
  | [] => .ok []
  | v :: vs => do
    let stored ← prepare s k v
    let rest ← prepareAll s k vs
    return stored :: rest

/-- A value and those after it of which none compares equal to the one kept before
it. -/
def dropRepeatedAfter (v : Value) : List Value → List Value
  | [] => [v]
  | w :: ws =>
    if w.canonicalCompare v = .eq then dropRepeatedAfter v ws else v :: dropRepeatedAfter w ws

/-- The values without those equal to the one kept before them. -/
def dropRepeated : List Value → List Value
  | [] => []
  | v :: vs => dropRepeatedAfter v vs

/-- The values in the order in which a container stores them. -/
def arranged (k : PropertyKind) (vs : List Value) : List Value :=
  if k.container = some .set then dropRepeated (Value.sort vs) else vs

/-- The elements replaced by new ones for other values. -/
def assign (c : Container) (vs : List Value) (b : Batch) : Except Error Unit × Batch :=
  match prepareAll b.view c.kind vs with
  | .error e => (.error e, b)
  | .ok stored =>
    let (es, b) := newElements b (arranged c.kind stored)
    c.edit (fun _ => es) b

/-- The objects that elements link to, each once, in ascending order of key. -/
def linkedKeys (es : List Element) : List ObjectKey :=
  let keys := es.filterMap fun e => e.value.asObject
  (keys.eraseDups).mergeSort fun a b => a.val ≤ b.val

/-- Objects removed one after the other, and how many of them were there. -/
def removeAll (b : Batch) : List ObjectKey → Nat × Batch
  | [] => (0, b)
  | key :: keys =>
    let (links, b) := b.removeEntity key
    let (count, b) := removeAll b keys
    (if links.isSome then count + 1 else count, b)

/-- Every object that an element links to deleted; how many there were. -/
def deleteObjects (c : Container) (b : Batch) : Except Error Nat × Batch :=
  if !c.kind.isObject then
    (.error (.typeMismatch "list or set of objects" c.kind.text), b)
  else
    match elementsIn c.key b.view with
    | .error e => (.error e, b)
    | .ok es =>
      let (count, b) := removeAll b (linkedKeys es)
      (.ok count, b)

end Container

end ObjectStore
