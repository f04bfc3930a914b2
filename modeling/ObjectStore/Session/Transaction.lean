import ObjectStore.Session.World

/-
  Writes, refreshes and the end of a session.

  A write starts with the lock of the database and a batch from its latest
  snapshot; the session moves to that snapshot. It ends by a commit, which
  publishes the batch, or a cancellation, which drops it; closing the session in
  the middle of a write drops the batch too. Every end gives the lock back.

  Starting a write has two steps, because the lock may have to be waited for:
  `World.checkBegin` at the call, and `World.install` when the lock is granted.
  Anything may happen to the session between the two.

    1. `World.begin?`, `commit`, `cancel`, `refresh` and `close`.
    2. `World.leave` ends a write according to the outcome of what was done in it:
       a commit after success, a cancellation after a failure.
    3. `World.write?` runs an operation as one write.
-/

namespace ObjectStore

namespace World

/-- The session at another snapshot, its observers' changes queued. -/
def moveTo (x : Session) (s : Snapshot) : Session :=
  { x with snapshot := s, version := x.version + 1, feed := x.feed.advance s }

/-- A write may be asked for: the session is not inside one. -/
def checkBegin (w : World) (t : Thread) (s : SessionId) : Except Error Unit :=
  match w.gate t s with
  | .error e => .error e
  | .ok x => if x.batch.isSome then .error (.invalidOperation .writeInProgress) else .ok ()

/-- The batch put into the session once the lock is granted. If the snapshot is
another one than before, the observers' changes are queued. A taken lock has to be
waited for. -/
def install (w : World) (s : SessionId) : Option World :=
  match w.session? s with
  | none => none
  | some x =>
    match (w.database x.database).engine.beginWrite with
    | none => none
    | some (batch, engine) =>
      let feed :=
        if batch.base.generation ≠ x.snapshot.generation then x.feed.advance batch.base
        else x.feed
      let x' : Session :=
        { x with snapshot := batch.base, batch := some batch, version := x.version + 1, feed }
      some ((w.putEngine x.database engine).putSession s x')

/-- A write started; nothing if the lock has to be waited for. -/
def begin? (w : World) (t : Thread) (s : SessionId) : Option (Except Error Unit × World) :=
  match w.checkBegin t s with
  | .error e => some (.error e, w)
  | .ok () => (w.install s).map fun w => (.ok (), w)

/-- The batch published as a new generation. -/
def commit (w : World) (t : Thread) (s : SessionId) : Except Error Generation × World :=
  match w.gate t s with
  | .error e => (.error e, w)
  | .ok x =>
    let left : Session := { x with batch := none, version := x.version + 1 }
    match x.batch with
    | none => (.error .writeOutsideTransaction, w.putSession s left)
    | some batch =>
      match (w.database x.database).engine.commit batch with
      | (.error e, engine) => (.error e, (w.putEngine x.database engine).putSession s left)
      | (.ok snapshot, engine) =>
        (.ok snapshot.generation,
          (w.putEngine x.database engine).putSession s (moveTo left snapshot))

/-- The batch dropped; outside a write there is none to drop. -/
def cancel (w : World) (t : Thread) (s : SessionId) : Except Error Unit × World :=
  match w.gate t s with
  | .error e => (.error e, w)
  | .ok x =>
    let left : Session := { x with batch := none, version := x.version + 1 }
    match x.batch with
    | none => (.ok (), w.putSession s left)
    | some _ =>
      let engine := (w.database x.database).engine.abandon
      (.ok (), (w.putEngine x.database engine).putSession s left)

/-- The session moved to the latest snapshot; whether that is another one. Inside
a write it stays. -/
def refresh (w : World) (t : Thread) (s : SessionId) : Except Error Bool × World :=
  match w.gate t s with
  | .error e => (.error e, w)
  | .ok x =>
    let latest := (w.database x.database).engine.latest
    if x.batch.isSome then (.ok false, w)
    else if latest.generation = x.snapshot.generation then (.ok false, w)
    else (.ok true, w.putSession s (moveTo x latest))

/-- The session closed from any thread: a batch is dropped and all observers end.
Closing it again does nothing. -/
def close (w : World) (s : SessionId) : World :=
  match w.session? s with
  | none => w
  | some x =>
    if x.closed then w
    else
      let left : Session := { x with closed := true, batch := none, feed := x.feed.clear }
      match x.batch with
      | none => w.putSession s left
      | some _ =>
        let engine := (w.database x.database).engine.abandon
        (w.putEngine x.database engine).putSession s left

/-- The end of a write after what was done in it: a commit after success. After a
failure the write is cancelled, unless the session was closed meanwhile; the
failure is the answer, or that of the cancellation. -/
def leave {α : Type} (w : World) (t : Thread) (s : SessionId) (outcome : Except Error α) :
    Except Error α × World :=
  match outcome with
  | .ok a =>
    let (done, w) := w.commit t s
    (done.map fun _ => a, w)
  | .error e =>
    if w.isClosed s then (.error e, w)
    else
      match w.cancel t s with
      | (.ok (), w) => (.error e, w)
      | (.error e', w) => (.error e', w)

/-- An operation run as one write; nothing if the lock has to be waited for. -/
def write? {α : Type} (w : World) (t : Thread) (s : SessionId)
    (f : World → Except Error α × World) : Option (Except Error α × World) :=
  match w.begin? t s with
  | none => none
  | some (.error e, w) => some (.error e, w)
  | some (.ok (), w) =>
    let (outcome, w) := f w
    some (w.leave t s outcome)

end World

end ObjectStore
