import ObjectStore.Identity

/-
  Why an operation is refused.

  An error is a cause; its wording is fixed in one place. Causes of the same kind
  that differ only in wording are grouped: what is stale, how the interface was
  misused, and which computation overflowed.
-/

namespace ObjectStore

/-- What a handle refers to and no longer is there. -/
inductive Stale where
  | session (id : SessionId)
  | owner (container : ContainerKey)
  deriving DecidableEq, Repr

/-- An operation that the state or the shape of its operands does not allow. -/
inductive Misuse where
  | emptyPath
  | invalidClassName (name : String)
  | invalidPropertyName (className property : String)
  | duplicateProperty (className property : String)
  | inconsistentTarget (className property : String)
  | writeInProgress
  | uncommittedWrite
  | notAttached
  | alreadyAttached
  | frozenCollection
  | frozenExport
  | frozenObservation
  | notOnSet (operation : String)
  | aborted (reason : String)
  deriving DecidableEq, Repr

/-- A computation whose result has no representation. -/
inductive Overflow where
  | integerSum
  | decimalSum
  | decimalAverage
  deriving DecidableEq, Repr

/-- Why an operation is refused. -/
inductive Error where
  | typeMismatch (expected got : String)
  | unsupportedAggregate (aggregate element : String)
  | writeOutsideTransaction
  | wrongThread
  | staleReference (what : Stale)
  | transactionConflict (base latest : Generation)
  | unknownClass (name : String)
  | unknownProperty (className property : String)
  | notFound (key : ObjectKey)
  | indexOutOfBounds (index length : Nat)
  | invalidOperation (misuse : Misuse)
  | executionError (overflow : Overflow)
  deriving DecidableEq, Repr

def Stale.text : Stale → String
  | .session id => s!"session {id.number} is closed"
  | .owner container => s!"owner of {container.text} no longer exists"

def Misuse.text : Misuse → String
  | .emptyPath => "empty property path"
  | .invalidClassName name => s!"invalid class name '{name}'"
  | .invalidPropertyName c p => s!"invalid property name '{c}.{p}'"
  | .duplicateProperty c p => s!"duplicate property '{c}.{p}'"
  | .inconsistentTarget c p => s!"property '{c}.{p}' has an inconsistent link target"
  | .writeInProgress => "write transaction already in progress"
  | .uncommittedWrite => "cannot freeze or hand over inside a write transaction"
  | .notAttached => "collection is not attached to a session"
  | .alreadyAttached => "collection is already attached"
  | .frozenCollection => "frozen collections are immutable"
  | .frozenExport => "frozen collections are shared directly"
  | .frozenObservation => "frozen results cannot be observed"
  | .notOnSet operation => s!"{operation} is not supported on a set"
  | .aborted reason => reason

def Overflow.text : Overflow → String
  | .integerSum => "integer sum overflow"
  | .decimalSum => "decimal sum overflow"
  | .decimalAverage => "decimal average overflow"

def Error.message : Error → String
  | .typeMismatch expected got => s!"Type mismatch: expected {expected}, got {got}"
  | .unsupportedAggregate aggregate element =>
    s!"Unsupported aggregate: {aggregate} over {element}"
  | .writeOutsideTransaction => "Write outside a write transaction"
  | .wrongThread => "Accessed from a thread other than the owning session's"
  | .staleReference what => s!"Stale reference: {what.text}"
  | .transactionConflict base latest =>
    s!"Transaction conflict: write based on generation {base.text} but latest is {latest.text}"
  | .unknownClass name => s!"Unknown class: {name}"
  | .unknownProperty c p => s!"Unknown property: {c}.{p}"
  | .notFound key => s!"Not found: object {key.text}"
  | .indexOutOfBounds index length => s!"Index {index} out of bounds for length {length}"
  | .invalidOperation misuse => s!"Invalid operation: {misuse.text}"
  | .executionError overflow => s!"Execution error: {overflow.text}"

end ObjectStore
