import ObjectStore.Change.Feed
import ObjectStore.Schema.Classes
import ObjectStore.Store.Engine

/-
  Databases and the sessions open on them.

  A database is an engine and the schema of what it holds. A session belongs to
  the thread that opened it. It reads one snapshot of its database, or the working
  copy of the one batch it may hold, and keeps the observers registered through it.

  A world is all databases and sessions there are. An operation takes the world
  and the thread it is called from, and answers with its outcome and the world as
  it is afterwards.

    1. `World.gate` is the check that every access goes through: the thread owns
       the session, and the session is open.
    2. `World.read` and `World.mutate` are reading and writing behind that check.
    3. `World.openDatabase` and `World.openSession` make new ones.
-/

namespace ObjectStore

/-- The name of a database. -/
structure DatabaseId where
  index : Nat
  deriving DecidableEq, Repr, Inhabited

/-- An engine and the schema of what it holds. `announces` tells whether observers
are first told of the view as it is. -/
structure Database where
  engine : Engine
  schema : Schema
  announces : Bool
  deriving Inhabited

/-- A session. `version` is another one whenever the view may be another one. -/
structure Session where
  database : DatabaseId
  owner : Thread
  snapshot : Snapshot
  batch : Option Batch
  version : Nat
  closed : Bool
  feed : Feed
  deriving Inhabited

/-- What a session reads: the working copy of its batch, else its snapshot. -/
def Session.view (x : Session) : Snapshot :=
  match x.batch with
  | some b => b.view
  | none => x.snapshot

/-- All databases and sessions, in the order in which they were opened. -/
structure World where
  databases : List Database
  sessions : List Session
  deriving Inhabited

namespace World

def empty : World := ⟨[], []⟩

def database (w : World) (d : DatabaseId) : Database := (w.databases[d.index]?).getD default

/-- The world with the engine of a database replaced. -/
def putEngine (w : World) (d : DatabaseId) (e : Engine) : World :=
  { w with databases := w.databases.modify d.index fun x => { x with engine := e } }

def session? (w : World) (s : SessionId) : Option Session := w.sessions[s.index]?

def putSession (w : World) (s : SessionId) (x : Session) : World :=
  { w with sessions := w.sessions.set s.index x }

/-- The schema of the database of a session. -/
def schemaOf (w : World) (s : SessionId) : Schema :=
  match w.session? s with
  | some x => (w.database x.database).schema
  | none => .empty

/-- A database with an empty store, if the schema is valid. -/
def openDatabase (w : World) (schema : Schema) (announces : Bool) :
    Except Error DatabaseId × World :=
  match schema.validate with
  | .error e => (.error e, w)
  | .ok () =>
    (.ok ⟨w.databases.length⟩, { w with databases := w.databases ++ [⟨.empty, schema, announces⟩] })

/-- A session on a database, owned by the calling thread. -/
def openSession (w : World) (t : Thread) (d : DatabaseId) : SessionId × World :=
  let db := w.database d
  let x : Session := ⟨d, t, db.engine.latest, none, 1, false, .empty db.announces⟩
  (⟨w.sessions.length⟩, { w with sessions := w.sessions ++ [x] })

/-! ## Access -/

/-- The session, for a thread that may use it. -/
def gate (w : World) (t : Thread) (s : SessionId) : Except Error Session :=
  match w.session? s with
  | none => .error (.staleReference (.session s))
  | some x =>
    if t ≠ x.owner then .error .wrongThread
    else if x.closed then .error (.staleReference (.session s))
    else .ok x

/-- A reading of the session's view; the reader is also given its version. -/
def read {α : Type} (w : World) (t : Thread) (s : SessionId)
    (f : Snapshot → Nat → Except Error α) : Except Error α :=
  match w.gate t s with
  | .error e => .error e
  | .ok x => f x.view x.version

/-- The session's view from any thread; nothing once it is closed. -/
def peek (w : World) (s : SessionId) : Option Snapshot :=
  match w.session? s with
  | none => none
  | some x => if x.closed then none else some x.view

/-- A writing to the session's batch. The version moves even if nothing is written
in the end. -/
def mutate {α : Type} (w : World) (t : Thread) (s : SessionId)
    (f : Batch → Except Error α × Batch) : Except Error α × World :=
  match w.gate t s with
  | .error e => (.error e, w)
  | .ok x =>
    match x.batch with
    | none => (.error .writeOutsideTransaction, w)
    | some b =>
      let (outcome, b) := f b
      (outcome, w.putSession s { x with batch := some b, version := x.version + 1 })

/-- The snapshot that the session reads outside a write. What a batch has written
can be neither frozen nor handed over. -/
def committed (w : World) (t : Thread) (s : SessionId) : Except Error Snapshot :=
  match w.gate t s with
  | .error e => .error e
  | .ok x =>
    if x.batch.isSome then .error (.invalidOperation .uncommittedWrite) else .ok x.snapshot

def generation (w : World) (t : Thread) (s : SessionId) : Except Error Generation :=
  (w.gate t s).map (·.snapshot.generation)

/-- Whether the session is open and inside a write. -/
def isInWrite (w : World) (s : SessionId) : Bool :=
  match w.session? s with
  | none => false
  | some x => !x.closed && x.batch.isSome

def isClosed (w : World) (s : SessionId) : Bool := (w.peek s).isNone

end World

end ObjectStore
