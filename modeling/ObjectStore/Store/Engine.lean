import ObjectStore.Store.Batch

/-
  Publication of snapshots, one writer at a time.

  The engine keeps the latest committed snapshot and whether a writer is at work.
  A batch is handed out only while no writer is at work, and takes the lock. The
  lock is released when a batch is committed or abandoned, also when the commit
  is refused because the batch does not start from the latest snapshot.
-/

namespace ObjectStore

/-- The latest snapshot and whether the write lock is taken. -/
structure Engine where
  latest : Snapshot
  busy : Bool
  deriving DecidableEq, Inhabited

namespace Engine

/-- An engine without objects and without a writer. -/
def empty : Engine := ⟨.empty, false⟩

/-- A batch from the latest snapshot under the write lock; a taken lock has to be
waited for. -/
def beginWrite (e : Engine) : Option (Batch × Engine) :=
  if e.busy then none else some (.start e.latest, { e with busy := true })

/-- A batch published as the next generation, if it starts from the latest one.
The lock is released either way. -/
def commit (e : Engine) (b : Batch) : Except Error Snapshot × Engine :=
  if b.base.generation = e.latest.generation then (.ok b.published, ⟨b.published, false⟩)
  else
    (.error (.transactionConflict b.base.generation e.latest.generation), { e with busy := false })

def abandon (e : Engine) : Engine := { e with busy := false }

end Engine

end ObjectStore
