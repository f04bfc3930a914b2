import ObjectStore.Session.World

/-
  Telling observers.

  Delivery is asked for by the session's own thread. It goes on until the queue is
  empty, changes queued by observers meanwhile included. A delivery asked for from
  within an observer tells nothing: the one under way goes on afterwards.

    1. `World.startDelivery` begins a delivery, or finds one under way.
    2. `World.nextNotice` is the next change; the observer runs after this step.
    3. `World.finishDelivery` ends it.
    4. `World.deliver` is these steps in a loop, with the code of the observers between them.
    5. `World.cancelObserver` ends an observer, also in the middle of a delivery.
-/

namespace ObjectStore

namespace World

/-- The world with the feed of a session replaced. -/
def putFeed (w : World) (s : SessionId) (x : Session) (f : Feed) : World :=
  w.putSession s { x with feed := f }

/-- A delivery begun; `false` if one is under way. -/
def startDelivery (w : World) (t : Thread) (s : SessionId) : Except Error Bool × World :=
  match w.gate t s with
  | .error e => (.error e, w)
  | .ok x =>
    match x.feed.begin? with
    | none => (.ok false, w)
    | some feed => (.ok true, w.putFeed s x feed)

/-- The next change that an observer has to be told of. -/
def nextNotice (w : World) (s : SessionId) : Option Notice × World :=
  match w.session? s with
  | none => (none, w)
  | some x =>
    let (notice, feed) := x.feed.next
    (notice, w.putFeed s x feed)

/-- The delivery ended. -/
def finishDelivery (w : World) (s : SessionId) : World :=
  match w.session? s with
  | none => w
  | some x => w.putFeed s x x.feed.finish

/-- The loop of a delivery. Observers are told of one change after the other until there is none
left, and how many there were is counted. What an observer does is `tell`: it turns the world and
what observers keep for themselves into what they are afterwards. It may queue changes without
end, so that there is no answer if there are more than `most` to be told. -/
def tellAll {σ : Type} (s : SessionId) (tell : Notice → World × σ → World × σ) (most : Nat)
    (x : World × σ) : Option (Nat × World × σ) :=
  match x.1.nextNotice s with
  | (none, w) => some (0, w.finishDelivery s, x.2)
  | (some n, w) =>
    match most with
    | 0 => none
    | most + 1 => (tellAll s tell most (tell n (w, x.2))).map fun (count, out) => (count + 1, out)

/-- A delivery, and how many changes it has told. One that is asked for within another one tells
none. -/
def deliver {σ : Type} (w : World) (t : Thread) (s : SessionId)
    (tell : Notice → World × σ → World × σ) (kept : σ) (most : Nat) :
    Option (Except Error Nat × World × σ) :=
  match w.startDelivery t s with
  | (.error e, w) => some (.error e, w, kept)
  | (.ok false, w) => some (.ok 0, w, kept)
  | (.ok true, w) => (tellAll s tell most (w, kept)).map fun (count, out) => (.ok count, out)

/-- An observer ended. -/
def cancelObserver (w : World) (s : SessionId) (o : ObserverId) : World :=
  match w.session? s with
  | none => w
  | some x => w.putFeed s x (x.feed.cancel o)

/-- Whether an observer is still to be told of changes. -/
def isObserving (w : World) (s : SessionId) (o : ObserverId) : Bool :=
  match w.session? s with
  | none => false
  | some x => x.feed.isActive o

end World

end ObjectStore
