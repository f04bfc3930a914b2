import ObjectStore.Collection.Basic
import ObjectStore.Inspection.Value
import ObjectStore.Session.Delivery
import ObjectStore.View.Results

/-
  Databases, sessions, collections, views and observers as an inspection shows
  them: the name of what it is, and the fields that tell two of them apart.
-/

namespace ObjectStore

open Inspection

namespace Inspection

def containerKey (c : ContainerKey) : String :=
  record "ContainerKey"
    [("owner", objectKey c.owner), ("property", quotedText c.property)] false

def source : Source → String
  | .objects className => tagged "Class" (quotedText className)
  | .container key => tagged "Container" (containerKey key)

def predicate (p : Predicate) : String :=
  record "CompiledPredicate"
    [("format", quotedText p.format), ("arguments", listText (p.arguments.map Value.inspect))]
    false

def optional : Option String → String
  | some content => tagged "Some" content
  | none => "None"

def truth (b : Bool) : String := if b then "true" else "false"

end Inspection

namespace World

def inspectDatabase (w : World) (d : DatabaseId) : String :=
  let generation : Generation := (w.database d).engine.latest.generation
  record "Database" [("generation", tagged "Generation" (toString generation))] true

def inspectObserver (w : World) (s : SessionId) (o : ObserverId) : String :=
  record "NotificationToken"
    [("id", toString o.val), ("active", truth (w.isObserving s o))] false

end World

def SessionId.inspect (s : SessionId) : String :=
  record "Session" [("id", toString s.number)] true

/-- A collection by its state and kind, and by its container if it has one. -/
def Collection.inspect (c : Collection) (w : World) : String :=
  let place :=
    match c with
    | .unattached _ _ => []
    | .bound _ container => [("container", quotedText container.key.text)]
  record "ManagedCollection"
    ([("state", (c.state w).name), ("kind", quotedText c.kind.text)] ++ place) false

/-- A view by its source and predicate. -/
def Results.inspect (v : Results) : String :=
  record "Results"
    [("source", Inspection.source v.recipe.source),
      ("predicate", optional (v.recipe.predicate.map Inspection.predicate)),
      ("frozen", truth v.binding.isFrozen)]
    false

end ObjectStore
