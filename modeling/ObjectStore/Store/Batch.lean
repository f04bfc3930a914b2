import ObjectStore.Error
import ObjectStore.Store.Snapshot

/-
  The working copy of a writer.

  A batch starts from a committed snapshot and works on a copy of it, which
  nobody else sees. Whatever it writes is stamped with the generation that the
  batch will have when it is committed, the one after its base.

    1. `Batch.insertEntity` and `Batch.allocateSlot` hand out the next numbers.
    2. `Batch.edit` writes an object and stamps it.
    3. `Batch.removeEntity` removes an object together with every link to it.
    4. `Batch.published` is the snapshot that a commit makes of the batch.

  An operation that can fail returns its outcome beside the batch as it is
  afterwards, so that what a failure leaves behind is part of the definition.
-/

namespace ObjectStore

/-- A committed snapshot and a working copy of it. -/
structure Batch where
  base : Snapshot
  working : Snapshot
  deriving DecidableEq, Inhabited

namespace Batch

def start (base : Snapshot) : Batch := ⟨base, base⟩

/-- The generation that stamps what the batch writes. -/
def pending (b : Batch) : Generation := b.base.generation + 1

/-- The content as the batch sees it. -/
def view (b : Batch) : Snapshot := b.working

/-- A new object without fields, under the next key. -/
def insertEntity (b : Batch) (className : String) : ObjectKey × Batch :=
  let key : ObjectKey := ⟨b.working.nextKey + 1⟩
  let entity : Entity := ⟨key, className, [], b.pending⟩
  (key, { b with working :=
    { b.working with nextKey := key.val, entities := b.working.entities ++ [entity] } })

/-- The next slot. -/
def allocateSlot (b : Batch) : SlotId × Batch :=
  let slot : SlotId := ⟨b.working.nextSlot + 1⟩
  (slot, { b with working := { b.working with nextSlot := slot.val } })

/-- The objects with one of them edited. -/
def editEntities (key : ObjectKey) (f : Entity → Entity) : List Entity → List Entity
  | [] => []
  | e :: es => if e.key = key then f e :: es else e :: editEntities key f es

/-- An object written and stamped. -/
def edit (b : Batch) (key : ObjectKey) (f : Entity → Entity) : Except Error Unit × Batch :=
  if b.working.contains key then
    let write (e : Entity) : Entity := f { e with revision := b.pending }
    (.ok (), { b with working :=
      { b.working with entities := editEntities key write b.working.entities } })
  else (.error (.notFound key), b)

/-! ## Removal -/

/-- Whether an element links to an object. -/
def linksTo (key : ObjectKey) (e : Element) : Bool := e.value.asObject == some key

/-- A field without links to an object: a single link becomes null, and elements
that link to it are taken out. -/
def unlinkField (key : ObjectKey) : Field → Field
  | .value v => if v.asObject = some key then .value .null else .value v
  | .list es => .list (es.filter fun e => !linksTo key e)
  | .set es => .set (es.filter fun e => !linksTo key e)

/-- The slots that `unlinkField` takes out of a field. -/
def unlinkedSlots (key : ObjectKey) : Field → List SlotId
  | .value _ => []
  | .list es => (es.filter (linksTo key)).map (·.slot)
  | .set es => (es.filter (linksTo key)).map (·.slot)

/-- Whether a field holds a link to an object. -/
def refersTo (key : ObjectKey) : Field → Bool
  | .value v => v.asObject == some key
  | .list es => es.any (linksTo key)
  | .set es => es.any (linksTo key)

/-- An object without links to another one, stamped if it had any. -/
def unlinkEntity (key : ObjectKey) (stamp : Generation) (e : Entity) : Entity :=
  { e with
    fields := e.fields.map fun p => (p.1, unlinkField key p.2)
    revision := if e.fields.any fun p => refersTo key p.2 then stamp else e.revision }

/-- The container elements of an object that link to another one. -/
def unlinkedIn (key : ObjectKey) (e : Entity) : List (ContainerKey × SlotId) :=
  e.fields.flatMap fun p => (unlinkedSlots key p.2).map fun slot => (⟨e.key, p.1⟩, slot)

/-- An object removed with every link to it. The container elements that were
taken out are returned; there is nothing to return if the object is not there. -/
def removeEntity (b : Batch) (key : ObjectKey) : Option (List (ContainerKey × SlotId)) × Batch :=
  if b.working.contains key then
    let rest := b.working.entities.filter (·.key != key)
    (some (rest.flatMap (unlinkedIn key)), { b with working :=
      { b.working with entities := rest.map (unlinkEntity key b.pending) } })
  else (none, b)

/-- The working copy as the generation after its base. -/
def published (b : Batch) : Snapshot := { b.working with generation := b.pending }

end Batch

end ObjectStore
