import ObjectStore.Session.World

/-
  What a handle reads from.

  A live handle reads what its session reads at the moment of reading, and only
  where the session may be used. A frozen handle reads one committed snapshot, for
  ever and from any thread.
-/

namespace ObjectStore

/-- A session's current view, or one snapshot. -/
inductive Binding where
  | live (session : SessionId)
  | frozen (snapshot : Snapshot)
  deriving DecidableEq, Inhabited

namespace Binding

/-- A reading of what is bound, with a version that tells different views of a
session apart. A frozen snapshot has the version that no session view has. -/
def read {α : Type} (b : Binding) (w : World) (t : Thread)
    (f : Snapshot → Nat → Except Error α) : Except Error α :=
  match b with
  | .live s => w.read t s f
  | .frozen snapshot => f snapshot 0

/-- The binding to what the session has last committed; a frozen one stays. -/
def freeze (b : Binding) (w : World) (t : Thread) : Except Error Binding :=
  match b with
  | .live s => (w.committed t s).map .frozen
  | .frozen snapshot => .ok (.frozen snapshot)

def generation (b : Binding) (w : World) (t : Thread) : Except Error Generation :=
  match b with
  | .live s => w.generation t s
  | .frozen snapshot => .ok snapshot.generation

/-- Whether the binding is to one snapshot. -/
def isFrozen : Binding → Bool
  | .live _ => false
  | .frozen _ => true

end Binding

end ObjectStore
