import ObjectStore.Change.ChangeSet

/-
  The observers of a session and what they still have to be told.

  Every observer subscribes to one view and remembers the trace of its last
  evaluation. Whenever the session moves to another snapshot all views are
  evaluated again, and the differences are put into one queue. Nothing is told
  until the session asks for delivery, so an observer never runs in the middle of
  a write.

    1. `Feed.register` adds an observer; `Feed.cancel` ends one, and what is
       queued for it is passed over from then on; `Feed.clear` ends all.
    2. `Feed.advance` queues the differences to a new snapshot.
    3. A delivery is a sequence of steps: `Feed.begin?`, which refuses while one
       is under way, `Feed.next` for each change, and `Feed.finish`. Between two
       steps an observer may do anything, also queue further changes.
-/

namespace ObjectStore

/-- The name of an observer within its session, counted from 1. -/
structure ObserverId where
  val : Nat
  deriving DecidableEq, Repr, Inhabited

/-- An observer, the view it observes, and the trace it was last told of. -/
structure Subscription where
  id : ObserverId
  recipe : Recipe
  last : Trace
  deriving Inhabited

/-- A change that an observer has not been told of. -/
structure Notice where
  observer : ObserverId
  change : Change
  deriving DecidableEq, Inhabited

/-- The observers of a session and the queue of changes. `announces` tells whether
an observer is first told of the view as it was at registration. -/
structure Feed where
  subscriptions : List Subscription
  queue : List Notice
  delivering : Bool
  nextId : Nat
  announces : Bool
  deriving Inhabited

namespace Feed

def empty (announces : Bool) : Feed := ⟨[], [], false, 1, announces⟩

/-- Whether an observer is still to be told of changes. -/
def isActive (f : Feed) (id : ObserverId) : Bool := f.subscriptions.any (·.id == id)

/-- A new observer of a view with the given rows. -/
def register (f : Feed) (recipe : Recipe) (rows : List Row) (generation : Generation) :
    ObserverId × Feed :=
  let id : ObserverId := ⟨f.nextId⟩
  let notices := if f.announces then [⟨id, .initial rows.length generation⟩] else []
  (id, { f with
    subscriptions := f.subscriptions ++ [⟨id, recipe, Trace.ofRows rows⟩]
    queue := f.queue ++ notices
    nextId := f.nextId + 1 })

/-- An observer ended. -/
def cancel (f : Feed) (id : ObserverId) : Feed :=
  { f with subscriptions := f.subscriptions.filter (·.id != id) }

/-- All observers ended and the queue emptied. -/
def clear (f : Feed) : Feed := { f with subscriptions := [], queue := [] }

/-- The trace of an observer's view in a snapshot. A view whose container is gone
has no rows. -/
def traceIn (snapshot : Snapshot) (s : Subscription) : Trace :=
  Trace.ofRows (s.recipe.rowsOrNone snapshot)

/-- What an observer has to be told of a snapshot, if anything. -/
def noticeOf (snapshot : Snapshot) (s : Subscription) : Option Notice :=
  let changes := ChangeSet.between s.last (traceIn snapshot s) snapshot.generation
  if changes.isEmpty then none else some ⟨s.id, .update changes⟩

/-- All views evaluated in a new snapshot and the differences queued, in the order
in which the observers were registered. -/
def advance (f : Feed) (snapshot : Snapshot) : Feed :=
  { f with
    subscriptions := f.subscriptions.map fun s => { s with last := traceIn snapshot s }
    queue := f.queue ++ f.subscriptions.filterMap (noticeOf snapshot) }

/-! ## Delivery -/

/-- A delivery begun, unless one is under way. -/
def begin? (f : Feed) : Option Feed :=
  if f.delivering then none else some { f with delivering := true }

/-- The first queued change whose observer is active, and the queue behind it. -/
def firstActive (active : ObserverId → Bool) : List Notice → Option (Notice × List Notice)
  | [] => none
  | n :: rest => if active n.observer then some (n, rest) else firstActive active rest

/-- The next change to tell of. Changes for ended observers are dropped. -/
def next (f : Feed) : Option Notice × Feed :=
  match firstActive f.isActive f.queue with
  | some (n, rest) => (some n, { f with queue := rest })
  | none => (none, { f with queue := [] })

/-- The delivery ended. -/
def finish (f : Feed) : Feed := { f with delivering := false }

end Feed

end ObjectStore
